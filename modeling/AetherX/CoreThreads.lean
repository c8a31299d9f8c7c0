import AetherX.MockCores

/-! Threads on one supervisor over in-process adapters. A call takes its map and lock steps
one after the other; the core that a call starts, stops or restarts and the entry that it
makes or removes are two different steps. -/
namespace AetherX.CoreThreads
open Supervisor Machine ManagedProcess MockCores Function
variable {τ ι : Type*} [DecidableEq τ]

/- What a thread does next, with what it has read so far. -/
inductive Task (ι : Type*) where
  | idle (result : Option (Except SupervisorError CoreStatus))
  -- start_core
  | checking (config : CoreConfig)
  | launching (config : CoreConfig) (i : ι)
  | awaiting (config : CoreConfig) (i : ι) (handle : CoreHandle)
  | cleaning (i : ι) (handle : CoreHandle) (error : SupervisorError)
  | inserting (config : CoreConfig) (i : ι) (handle : CoreHandle)
  -- stop_core
  | finding (id : String)
  | resolving (id : String) (n : Nat)
  | reading (id : String) (n : Nat) (i : ι)
  | stopping (id : String) (i : ι) (handle : CoreHandle)
  | removing (id : String)
  -- restart_core
  | looking (id : String)
  | opening (n : Nat)
  | restarting (n : Nat) (i : ι) (handle : CoreHandle)
  | probing (n : Nat) (i : ι) (handle : CoreHandle)
  | counting (n : Nat)

namespace Task
def fail (e : SupervisorError) : Task ι := .idle (some (.error e))

def succeed (status : CoreStatus) : Task ι := .idle (some (.ok status))

def begin : Call → Task ι
  | .startCore config _ => .checking config
  | .stopCore id => .finding id
  | .restartCore id _ => .looking id

def isIdle : Task ι → Bool
  | .idle _ => true
  | _ => false

theorem exists_of_isIdle {task : Task ι} (h : task.isIdle=true) :
    ∃ result, task = .idle result := by
  cases task with
  | idle result => exact ⟨result,rfl⟩
  | _ => cases h

def owns : Task ι → Option (String × ι × CoreKind)
  | .awaiting config i _ => some (config.instanceId, i, config.kind)
  | .inserting config i _ => some (config.instanceId, i, config.kind)
  | _ => none

end Task

/- The next section of a call. A probe that does not find the core running is repeated until
   the deadline is over. -/
def advance [DecidableEq ι] (adapters : CoreKind → Option ι) (now : Instant) (expired : Bool)
    (s : CoreSupervisor ι) : Task ι → CoreSupervisor ι × Task ι
  | .idle result => (s, .idle result)
  | .checking config =>
    match s.instances.lookup config.instanceId with
    | some _ => (s, .fail (.instanceExists config.instanceId))
    | none =>
      match CoreSupervisor.adapter adapters config.kind with
      | .error e => (s, .fail e)
      | .ok i => (s, .launching config i)
  | .launching config i =>
    match (s.mocks i).start config now with
    | .error e => (s, .fail e)
    | .ok (m, handle) => (s.setMock i m, .awaiting config i handle)
  | .awaiting config i handle =>
    match CoreSupervisor.waitForStartupReadiness (s.mocks i) handle with
    | .ok () => (s, .inserting config i handle)
    | .error e => if expired then (s, .cleaning i handle e) else (s, .awaiting config i handle)
  | .cleaning i handle error =>
    match (s.mocks i).stop handle with
    | .ok m => (s.setMock i m, .fail error)
    | .error _ => (s, .fail error)
  | .inserting config _ handle => (s.insert config handle now, .succeed .running)
  | .finding id =>
    match s.instances.lookup id with
    | none => (s, .fail (.instanceNotFound id))
    | some n => (s, .resolving id n)
  | .resolving id n =>
    match CoreSupervisor.adapter adapters (s.records n).kind with
    | .error e => (s, .fail e)
    | .ok i => (s, .reading id n i)
  | .reading id n i => (s, .stopping id i (s.records n).handle)
  | .stopping id i handle =>
    match (s.mocks i).stop handle with
    | .error e => (s, .fail e)
    | .ok m => (s.setMock i m, .removing id)
  | .removing id => (s.remove id, .succeed .stopped)
  | .looking id =>
    match s.instances.lookup id with
    | none => (s, .fail (.instanceNotFound id))
    | some n => (s, .opening n)
  | .opening n =>
    match CoreSupervisor.adapter adapters (s.records n).kind with
    | .error e => (s, .fail e)
    | .ok i => (s, .restarting n i (s.records n).handle)
  | .restarting n i handle =>
    match (s.mocks i).restart handle now with
    | .error e => (s, .fail e)
    | .ok m => (s.setMock i m, .probing n i handle)
  | .probing n i handle =>
    match CoreSupervisor.waitForStartupReadiness (s.mocks i) handle with
    | .ok () => (s, .counting n)
    | .error e => if expired then (s, .fail e) else (s, .probing n i handle)
  | .counting n => (s.countRestart n now, .succeed .running)

/- The threads, and the kind that each adapter was asked for when it started an instance. -/
structure System (τ ι : Type*) where
  supervisor : CoreSupervisor ι
  task : τ → Task ι
  startedAs : ι → String → Option CoreKind

inductive Event (τ : Type*) where
  | call (t : τ) (call : Call)
  | resume (t : τ) (now : Instant) (expired : Bool)

namespace System
def start (memory : Nat → InstanceRecord) : System τ ι :=
  ⟨.new memory,fun _ => .idle none,fun _ _ => none⟩

def become (s : System τ ι) (supervisor : CoreSupervisor ι) (t : τ) (task : Task ι) : System τ ι :=
  { s with supervisor := supervisor, task := update s.task t task }

/- What the history notes of a section: that a core was made, and of which kind. -/
def note [DecidableEq ι] (s : System τ ι) : Task ι → ι → String → Option CoreKind
  | .launching config i => fun j id =>
    if j=i ∧ id=config.instanceId ∧ (s.supervisor.mocks i).holds config.instanceId=false then
      some config.kind
    else s.startedAs j id
  | _ => s.startedAs

def next [DecidableEq ι] (adapters : CoreKind → Option ι) (s : System τ ι) : Event τ → System τ ι
  | .call t call =>
    match s.task t with
    | .idle _ => s.become s.supervisor t (.begin call)
    | _ => s
  | .resume t now expired =>
    let after := advance adapters now expired s.supervisor (s.task t)
    { s.become after.1 t after.2 with startedAs := s.note (s.task t) }

def Quiet (s : System τ ι) : Prop := ∀ t, ∃ result, s.task t = .idle result

def runs (s : System τ ι) (i : ι) (id : String) : Prop := (s.supervisor.mocks i).runs id

instance (s : System τ ι) (i : ι) (id : String) : Decidable (s.runs i id) :=
  inferInstanceAs (Decidable ((s.supervisor.mocks i).runs id))

end System

/-- Every running core is listed with the kind it was started as, and is the only one of its
instance; and every listed instance has a running core of the kind it is listed with. -/
structure Agreement (s : System τ ι) : Prop where
  unique : ∀ i j id, s.runs i id → s.runs j id → i=j
  listed : ∀ i id, s.runs i id → ∃ n, s.supervisor.instances.lookup id=some n ∧
    s.startedAs i id=some (s.supervisor.records n).kind
  running : ∀ id n, s.supervisor.instances.lookup id=some n →
    ∃ i, s.runs i id ∧ s.startedAs i id=some (s.supervisor.records n).kind

/-- The sections of different calls on one instance come in an order that the calls could have
been made in: nothing is launched for an instance that is listed or being started, no listed
instance is removed while a core of it runs, and a core is restarted only while it is listed. -/
def Orderly (s : System τ ι) : Event τ → Prop
  | .call _ _ => True
  | .resume t _ _ =>
    match s.task t with
    | .launching config i => (s.supervisor.mocks i).holds config.instanceId=false →
      s.supervisor.instances.lookup config.instanceId=none ∧
        ∀ u j kind, (s.task u).owns≠some (config.instanceId, j, kind)
    | .removing id => ∀ n, s.supervisor.instances.lookup id=some n → ∀ i, ¬ s.runs i id
    | .restarting _ _ handle => ∃ n, s.supervisor.instances.lookup handle.instanceId=some n ∧
      (s.supervisor.records n).kind=handle.kind
    | _ => True

section
variable (adapters : CoreKind → Option ι)

/- What a thread has read is still so. -/
def Refers (s : CoreSupervisor ι) : Task ι → Prop
  | .launching config i => adapters config.kind=some i
  | .awaiting config i handle => adapters config.kind=some i ∧ handle=handleOf config
  | .inserting config i handle => adapters config.kind=some i ∧ handle=handleOf config
  | .cleaning _ _ _ => False
  | .resolving id n => n < s.made ∧ (s.records n).handle.instanceId=id
  | .reading id n i => n < s.made ∧ (s.records n).handle.instanceId=id ∧
    adapters (s.records n).kind=some i
  | .stopping id i handle => ∃ n < s.made, (s.records n).handle=handle ∧
    handle.instanceId=id ∧ adapters (s.records n).kind=some i
  | .opening n => n < s.made
  | .restarting n i handle => n < s.made ∧ (s.records n).handle=handle ∧
    adapters (s.records n).kind=some i
  | _ => True

structure Inv (s : System τ ι) : Prop where
  refers : ∀ t, Refers adapters s.supervisor (s.task t)
  entry : ∀ i id, (s.supervisor.mocks i).holds id=(s.startedAs i id).isSome
  placed : ∀ i id kind, s.startedAs i id=some kind → adapters kind=some i
  record : ∀ n < s.supervisor.made, (s.supervisor.records n).handle.kind =
    (s.supervisor.records n).kind ∧ ∃ i, s.startedAs i
      (s.supervisor.records n).handle.instanceId=some (s.supervisor.records n).kind
  listed : ∀ id n, s.supervisor.instances.lookup id=some n → n < s.supervisor.made ∧
    (s.supervisor.records n).handle.instanceId=id ∧
    ((∃ i, adapters (s.supervisor.records n).kind=some i ∧ s.runs i id) ∨
      ∃ t, s.task t = .removing id)
  running : ∀ i id, s.runs i id →
    (∃ n, s.supervisor.instances.lookup id=some n ∧
      adapters (s.supervisor.records n).kind=some i) ∨
    ∃ t kind, (s.task t).owns=some (id, i, kind)
  owner : ∀ t id i kind, (s.task t).owns=some (id, i, kind) →
    s.startedAs i id=some kind ∧ s.runs i id ∧ s.supervisor.instances.lookup id=none ∧
    ∀ n < s.supervisor.made, (s.supervisor.records n).handle.instanceId=id →
      adapters (s.supervisor.records n).kind≠some i
  alone : ∀ t u id i j kind kind', (s.task t).owns=some (id, i, kind) →
    (s.task u).owns=some (id, j, kind') → t=u
end

section
variable {adapters : CoreKind → Option ι} {s s' : System τ ι} {t : τ}

omit [DecidableEq τ] in
theorem inv_start (memory : Nat → InstanceRecord) :
    Inv adapters (System.start memory : System τ ι) where
  refers := fun _ => trivial
  entry := fun _ _ => rfl
  placed := nofun
  record := nofun
  listed := by simp [System.start,CoreSupervisor.new]
  running := by simp [System.start,System.runs,MockCore.runs,CoreSupervisor.new]
  owner := nofun
  alone := nofun

variable {i : ι}

omit [DecidableEq τ] in
theorem Inv.unstarted (h : Inv adapters s) {id : String}
    (hvacant : (s.supervisor.mocks i).holds id=false) : s.startedAs i id=none := by
  have hentry := h.entry i id
  rwa [hvacant,eq_comm,Option.isSome_eq_false_iff,Option.isNone_iff_eq_none] at hentry

omit [DecidableEq τ] in
/-- The adapter that a record's kind belongs to is the one that started its core. -/
theorem Inv.started_of_record (h : Inv adapters s) {n : Nat} (hn : n < s.supervisor.made)
    (hi : adapters (s.supervisor.records n).kind=some i) :
    s.startedAs i (s.supervisor.records n).handle.instanceId =
      some (s.supervisor.records n).kind := by
  obtain ⟨_,j,hj⟩ := h.record n hn
  have hsame : j=i := Option.some.inj ((h.placed j _ _ hj).symm.trans hi)
  rwa [hsame] at hj

/- The records that were made stay what they were, but for the counts of restarts. -/
structure KeepsRecords (a b : CoreSupervisor ι) : Prop where
  made : a.made ≤ b.made
  handle : ∀ n < a.made, (b.records n).handle=(a.records n).handle
  kind : ∀ n < a.made, (b.records n).kind=(a.records n).kind

variable {task : Task ι}

theorem KeepsRecords.refers {a b : CoreSupervisor ι} (h : KeepsRecords a b)
    (hrefers : Refers adapters a task) : Refers adapters b task := by
  cases task with
  | resolving id n =>
    obtain ⟨hn,hid⟩ := hrefers
    exact ⟨Nat.lt_of_lt_of_le hn h.made,by rw [h.handle n hn,hid]⟩
  | reading id n i =>
    obtain ⟨hn,hid,hi⟩ := hrefers
    exact ⟨Nat.lt_of_lt_of_le hn h.made,by rw [h.handle n hn,hid],by rw [h.kind n hn,hi]⟩
  | stopping id i handle =>
    obtain ⟨n,hn,hhandle,hid,hi⟩ := hrefers
    exact ⟨n,Nat.lt_of_lt_of_le hn h.made,by rw [h.handle n hn,hhandle],hid,
      by rw [h.kind n hn,hi]⟩
  | opening n => exact Nat.lt_of_lt_of_le hrefers h.made
  | restarting n i handle =>
    obtain ⟨hn,hhandle,hi⟩ := hrefers
    exact ⟨Nat.lt_of_lt_of_le hn h.made,by rw [h.handle n hn,hhandle],by rw [h.kind n hn,hi]⟩
  | _ => exact hrefers

theorem refers_update {a b : CoreSupervisor ι} (h : KeepsRecords a b) {f : τ → Task ι}
    (hf : ∀ u, Refers adapters a (f u)) (htask : Refers adapters b task) (u : τ) :
    Refers adapters b (update f t task u) := by
  by_cases hu : u=t
  · rw [hu,update_self]
    exact htask
  · rw [update_of_ne hu]
    exact h.refers (hf u)

/- A section that lists nothing, takes nothing off the list and launches nothing. -/
structure Frame (s s' : System τ ι) : Prop where
  made : s'.supervisor.made=s.supervisor.made
  handle : ∀ n, (s'.supervisor.records n).handle=(s.supervisor.records n).handle
  kind : ∀ n, (s'.supervisor.records n).kind=(s.supervisor.records n).kind
  instances : s'.supervisor.instances=s.supervisor.instances
  startedAs : s'.startedAs=s.startedAs
  holds : ∀ i id, (s'.supervisor.mocks i).holds id=(s.supervisor.mocks i).holds id
  owns : ∀ u, (s'.task u).owns=(s.task u).owns
  removing : ∀ u id, s.task u = .removing id → s'.task u = .removing id

omit [DecidableEq τ] in
theorem Inv.frame (h : Inv adapters s) (hf : Frame s s')
    (hrefers : ∀ u, Refers adapters s'.supervisor (s'.task u))
    (howner : ∀ u id i kind, (s.task u).owns=some (id, i, kind) → s'.runs i id)
    (hlisted : ∀ id n i, s.supervisor.instances.lookup id=some n →
      adapters (s.supervisor.records n).kind=some i → s.runs i id →
      s'.runs i id ∨ ∃ u, s'.task u = .removing id)
    (hrunning : ∀ i id, s'.runs i id → s.runs i id ∨
      ∃ n, s.supervisor.instances.lookup id=some n ∧
        adapters (s.supervisor.records n).kind=some i) :
    Inv adapters s' where
  refers := hrefers
  entry := by
    intro i id
    rw [hf.holds,hf.startedAs]
    exact h.entry i id
  placed := by
    rw [hf.startedAs]
    exact h.placed
  record := by
    intro n hn
    rw [hf.made] at hn
    rw [hf.handle,hf.kind,hf.startedAs]
    exact h.record n hn
  listed := by
    intro id n hn
    rw [hf.instances] at hn
    obtain ⟨hmade,hid,hcase⟩ := h.listed id n hn
    rw [hf.made,hf.handle,hf.kind]
    refine ⟨hmade,hid,?_⟩
    rcases hcase with ⟨i,hi,hruns⟩ | ⟨u,hu⟩
    · rcases hlisted id n i hn hi hruns with hruns' | hremoving
      · exact Or.inl ⟨i,hi,hruns'⟩
      · exact Or.inr hremoving
    · exact Or.inr ⟨u,hf.removing u id hu⟩
  running := by
    intro i id hruns'
    have hlists : (∃ n, s.supervisor.instances.lookup id=some n ∧
        adapters (s.supervisor.records n).kind=some i) →
        ∃ n, s'.supervisor.instances.lookup id=some n ∧
          adapters (s'.supervisor.records n).kind=some i := by
      rintro ⟨n,hn,hi⟩
      exact ⟨n,by rw [hf.instances,hn],by rw [hf.kind,hi]⟩
    rcases hrunning i id hruns' with hruns | hn
    · rcases h.running i id hruns with hn | ⟨u,kind,hu⟩
      · exact Or.inl (hlists hn)
      · exact Or.inr ⟨u,kind,(hf.owns u).trans hu⟩
    · exact Or.inl (hlists hn)
  owner := by
    intro u id i kind hu
    rw [hf.owns] at hu
    obtain ⟨hstarted,_,hnone,hrecords⟩ := h.owner u id i kind hu
    rw [hf.startedAs,hf.instances,hf.made]
    refine ⟨hstarted,howner u id i kind hu,hnone,fun n hn hid => ?_⟩
    rw [hf.handle] at hid
    rw [hf.kind]
    exact hrecords n hn hid
  alone := by
    intro t u id i j kind kind' ht hu
    rw [hf.owns] at ht hu
    exact h.alone t u id i j kind kind' ht hu

theorem owns_update (h : task.owns=(s.task t).owns) (u : τ) :
    (update s.task t task u).owns=(s.task u).owns := by
  by_cases hu : u=t
  · rw [hu,update_self,h]
  · rw [update_of_ne hu]

theorem removing_update (h : ∀ id, s.task t ≠ .removing id) {u : τ} {id : String}
    (hu : s.task u = .removing id) : update s.task t task u = .removing id := by
  have hne : u≠t := fun heq => h id (heq ▸ hu)
  rw [update_of_ne hne,hu]

theorem keepsRecords_refl (a : CoreSupervisor ι) : KeepsRecords a a :=
  ⟨Nat.le_refl _,fun _ _ => rfl,fun _ _ => rfl⟩

theorem Inv.move (h : Inv adapters s) (hrefers : Refers adapters s.supervisor task)
    (howns : task.owns=(s.task t).owns) (hremoving : ∀ id, s.task t ≠ .removing id) :
    Inv adapters (s.become s.supervisor t task) := by
  have hf : Frame s (s.become s.supervisor t task) := ⟨rfl,fun _ => rfl,fun _ => rfl,rfl,rfl,
    fun _ _ => rfl,owns_update howns,fun u id hu => removing_update hremoving hu⟩
  refine h.frame hf (refers_update (keepsRecords_refl _) h.refers hrefers) (fun u id i kind hu => ?_)
    (fun id n i _ _ hruns => Or.inl hruns) (fun i id hruns => Or.inl hruns)
  exact (h.owner u id i kind hu).2.1

/-- A write to one core, which is one that a record points to. -/
theorem Inv.write [DecidableEq ι] (h : Inv adapters s) {m : MockCore} {f : MockState → MockState}
    {handle : CoreHandle} {status : CoreStatus}
    (hm : (s.supervisor.mocks i).modify handle f = .ok m) (hf : ∀ st, (f st).status=status)
    (hrecord : ∃ n < s.supervisor.made, (s.supervisor.records n).handle=handle ∧ adapters (s.supervisor.records n).kind=some i)
    (htask : (s.task t).owns=none ∧ ∀ id, s.task t ≠ .removing id)
    (hrefers : Refers adapters s.supervisor task) (howns : task.owns=none)
    (hstop : status ≠ .running → task = .removing handle.instanceId)
    (hstart : status = .running → ∃ n, s.supervisor.instances.lookup handle.instanceId=some n ∧ adapters (s.supervisor.records n).kind=some i) :
    Inv adapters (s.become (s.supervisor.setMock i m) t task) := by
  have hframe : Frame s (s.become (s.supervisor.setMock i m) t task) :=
    ⟨rfl,fun _ => rfl,fun _ => rfl,rfl,rfl,sameEntries_setMock (holds_modify hm),
      owns_update (howns.trans htask.1.symm),fun u id hu => removing_update htask.2 hu⟩
  refine h.frame hframe (refers_update (keepsRecords_refl _) h.refers hrefers)
    (fun u id j kind hu => ?_) (fun id n j hn hj hruns => ?_) (fun j id hruns => ?_)
  · -- a core that is not listed yet has no record
    obtain ⟨_,hruns,_,hrecords⟩ := h.owner u id j kind hu
    obtain ⟨n,hn,hhandle,hi⟩ := hrecord
    have hother : ¬ (j=i ∧ id=handle.instanceId) := by
      rintro ⟨rfl,rfl⟩
      exact hrecords n hn (by rw [hhandle]) hi
    exact (runs_setMock hm hf j id).mpr (by rwa [if_neg hother])
  · by_cases hpoint : j=i ∧ id=handle.instanceId
    · by_cases hstatus : status = .running
      · left
        exact (runs_setMock hm hf j id).mpr (by rwa [if_pos hpoint])
      · right
        exact ⟨t,(update_self ..).trans ((hstop hstatus).trans (by rw [hpoint.2]))⟩
    · left
      exact (runs_setMock hm hf j id).mpr (by rwa [if_neg hpoint])
  · replace hruns := (runs_setMock hm hf j id).mp hruns
    by_cases hpoint : j=i ∧ id=handle.instanceId
    · rw [if_pos hpoint] at hruns
      rw [hpoint.1,hpoint.2]
      exact Or.inr (hstart hruns)
    · rw [if_neg hpoint] at hruns
      exact Or.inl hruns

structure Launches [DecidableEq ι] (s s' : System τ ι) (t : τ) (config : CoreConfig) (i : ι) :
    Prop where
  made : s'.supervisor.made=s.supervisor.made
  records : s'.supervisor.records=s.supervisor.records
  instances : s'.supervisor.instances=s.supervisor.instances
  runs : ∀ j id, s'.runs j id ↔ (j=i ∧ id=config.instanceId) ∨ s.runs j id
  holds : ∀ j id, (s'.supervisor.mocks j).holds id =
    (decide (j=i ∧ id=config.instanceId) || (s.supervisor.mocks j).holds id)
  startedAs : ∀ j id, s'.startedAs j id =
    if j=i ∧ id=config.instanceId then some config.kind else s.startedAs j id
  task : s'.task=update s.task t (.awaiting config i (handleOf config))

variable {config : CoreConfig}

theorem launches_next [DecidableEq ι] (htask : s.task t = .launching config i)
    (hvacant : (s.supervisor.mocks i).holds config.instanceId=false) (now : Instant)
    (expired : Bool) : Launches s (s.next adapters (.resume t now expired)) t config i := by
  have hmocks : ∀ j id, (((s.supervisor.setMock i
      (launched (s.supervisor.mocks i) config.instanceId now)).mocks j).runs id ↔
        (j=i ∧ id=config.instanceId) ∨ s.runs j id) ∧
      (((s.supervisor.setMock i
        (launched (s.supervisor.mocks i) config.instanceId now)).mocks j).holds id =
        (decide (j=i ∧ id=config.instanceId) || (s.supervisor.mocks j).holds id)) := by
    intro j id
    by_cases hj : j=i
    · subst hj
      rw [setMock_mocks_self,launched,runs_insert,holds_insert]
      by_cases hid : id=config.instanceId
      · simp [hid]
      · simp [hid,System.runs]
    · simp [setMock_mocks_ne _ hj,hj,System.runs]
  have hnote : ∀ j id, s.note (s.task t) j id =
      if j=i ∧ id=config.instanceId then some config.kind else s.startedAs j id := by
    intro j id
    simp only [htask,System.note,hvacant,and_true]
  have hadvance : advance adapters now expired s.supervisor (s.task t) =
      (s.supervisor.setMock i (launched (s.supervisor.mocks i) config.instanceId now),
        .awaiting config i (handleOf config)) := by
    rw [htask]
    simp only [advance,start_vacant now hvacant]
  rw [System.next,hadvance]
  exact ⟨rfl,rfl,rfl,fun j id => (hmocks j id).1,fun j id => (hmocks j id).2,hnote,rfl⟩

section
variable [DecidableEq ι] {config : CoreConfig} {i : ι}

theorem Launches.owns_self (hl : Launches s s' t config i) :
    (s'.task t).owns=some (config.instanceId, i, config.kind) := by
  rw [hl.task,update_self]
  rfl

theorem Launches.owns_of_ne (hl : Launches s s' t config i) {u : τ} (hu : u≠t) :
    (s'.task u).owns=(s.task u).owns := by
  rw [hl.task,update_of_ne hu]

theorem Launches.owns_cases (hl : Launches s s' t config i) {u : τ} {id : String} {j : ι}
    {kind : CoreKind} (hu : (s'.task u).owns=some (id, j, kind)) :
    (u=t ∧ id=config.instanceId ∧ j=i ∧ kind=config.kind) ∨
      (u≠t ∧ (s.task u).owns=some (id, j, kind)) := by
  by_cases hut : u=t
  · rw [hut,hl.owns_self,Option.some.injEq,Prod.mk.injEq,Prod.mk.injEq] at hu
    exact Or.inl ⟨hut,hu.1.symm,hu.2.1.symm,hu.2.2.symm⟩
  · exact Or.inr ⟨hut,(hl.owns_of_ne hut).symm.trans hu⟩

theorem Launches.refers (hl : Launches s s' t config i) (h : Inv adapters s)
    (hi : adapters config.kind=some i) (u : τ) :
    Refers adapters s'.supervisor (s'.task u) := by
  have hkeeps : KeepsRecords s.supervisor s'.supervisor :=
    ⟨Nat.le_of_eq hl.made.symm,fun n _ => by rw [hl.records],fun n _ => by rw [hl.records]⟩
  have hawaiting : Refers adapters s'.supervisor (.awaiting config i (handleOf config)) :=
    ⟨hi,rfl⟩
  rw [hl.task]
  exact refers_update hkeeps h.refers hawaiting u

/- The core was never started before, so what was started stays so. -/
theorem Launches.startedAs_of_some (hl : Launches s s' t config i)
    (hunstarted : s.startedAs i config.instanceId=none) {j : ι} {id : String} {kind : CoreKind}
    (hj : s.startedAs j id=some kind) : s'.startedAs j id=some kind := by
  rw [hl.startedAs,if_neg ?_]
  · exact hj
  · rintro ⟨rfl,rfl⟩
    exact absurd (hunstarted.symm.trans hj) nofun
end

/-- A launch makes a core that only its own thread knows of. -/
theorem Inv.launch [DecidableEq ι] (h : Inv adapters s) (htask : s.task t = .launching config i)
    (hvacant : (s.supervisor.mocks i).holds config.instanceId=false)
    (hunlisted : s.supervisor.instances.lookup config.instanceId=none)
    (hfree : ∀ u j kind, (s.task u).owns≠some (config.instanceId, j, kind))
    (hl : Launches s s' t config i) : Inv adapters s' := by
  have hi : adapters config.kind=some i := by
    have hrefers := h.refers t
    rwa [htask] at hrefers
  have hunstarted : s.startedAs i config.instanceId=none := h.unstarted hvacant
  refine ⟨hl.refers h hi,fun j id => ?_,fun j id kind hj => ?_,fun n hn => ?_,fun id n hn => ?_,
    fun j id hruns => ?_,fun u id j kind hu => ?_,fun u v id j k kind kind' hu hv => ?_⟩
  · rw [hl.holds,hl.startedAs,h.entry]
    split_ifs with hpoint <;> simp [hpoint]
  · rw [hl.startedAs] at hj
    split_ifs at hj with hpoint
    · rw [← Option.some.inj hj,hpoint.1]
      exact hi
    · exact h.placed j id kind hj
  · rw [hl.made] at hn
    obtain ⟨hkind,j,hj⟩ := h.record n hn
    rw [hl.records]
    exact ⟨hkind,j,hl.startedAs_of_some hunstarted hj⟩
  · rw [hl.instances] at hn
    obtain ⟨hmade,hid,hcase⟩ := h.listed id n hn
    rw [hl.made,hl.records]
    refine ⟨hmade,hid,?_⟩
    rcases hcase with ⟨j,hj,hruns⟩ | ⟨u,hu⟩
    · exact Or.inl ⟨j,hj,(hl.runs j id).mpr (Or.inr hruns)⟩
    · right
      rw [hl.task]
      exact ⟨u,removing_update (by simp [htask]) hu⟩
  · rcases (hl.runs j id).mp hruns with ⟨rfl,rfl⟩ | hruns
    · exact Or.inr ⟨t,config.kind,hl.owns_self⟩
    · rcases h.running j id hruns with ⟨n,hn,hj⟩ | ⟨u,kind,hu⟩
      · exact Or.inl ⟨n,by rw [hl.instances,hn],by rw [hl.records,hj]⟩
      · have hne : u≠t := by
          rintro rfl
          rw [htask] at hu
          cases hu
        exact Or.inr ⟨u,kind,(hl.owns_of_ne hne).trans hu⟩
  · rw [hl.runs,hl.instances,hl.made,hl.records]
    rcases hl.owns_cases hu with ⟨_,rfl,rfl,rfl⟩ | ⟨_,hu⟩
    · refine ⟨(hl.startedAs _ _).trans (if_pos ⟨rfl,rfl⟩),Or.inl ⟨rfl,rfl⟩,hunlisted,
        fun n hn hid hkind => ?_⟩
      -- a record would be of a core that was started before
      have hstarted := h.started_of_record hn hkind
      rw [hid] at hstarted
      exact absurd (hunstarted.symm.trans hstarted) nofun
    · obtain ⟨hstarted,hruns,hnone,hrecords⟩ := h.owner u id j kind hu
      exact ⟨hl.startedAs_of_some hunstarted hstarted,Or.inr hruns,hnone,hrecords⟩
  · rcases hl.owns_cases hu with ⟨hut,rfl,_⟩ | ⟨_,hu⟩
    · rcases hl.owns_cases hv with ⟨hvt,_⟩ | ⟨_,hv⟩
      · exact hut.trans hvt.symm
      · exact absurd hv (hfree v k kind')
    · rcases hl.owns_cases hv with ⟨_,rfl,_⟩ | ⟨_,hv⟩
      · exact absurd hu (hfree u j kind)
      · exact h.alone u v id j k kind kind' hu hv

/- What listing a core changes: there is one more record. -/
structure Inserts (s s' : System τ ι) (t : τ) (config : CoreConfig) : Prop where
  made : s'.supervisor.made=s.supervisor.made+1
  old : ∀ n < s.supervisor.made, s'.supervisor.records n=s.supervisor.records n
  new : (s'.supervisor.records s.supervisor.made).handle=handleOf config ∧
    (s'.supervisor.records s.supervisor.made).kind=config.kind
  instances : ∀ id, s'.supervisor.instances.lookup id =
    if id=config.instanceId then some s.supervisor.made else s.supervisor.instances.lookup id
  mocks : s'.supervisor.mocks=s.supervisor.mocks
  startedAs : s'.startedAs=s.startedAs
  task : s'.task=update s.task t (.succeed .running)

theorem inserts_next [DecidableEq ι] (htask : s.task t = .inserting config i (handleOf config))
    (now : Instant) (expired : Bool) :
    Inserts s (s.next adapters (.resume t now expired)) t config := by
  have hadvance : advance adapters now expired s.supervisor (s.task t) =
      (s.supervisor.insert config (handleOf config) now, .succeed .running) := by
    rw [htask]
    rfl
  have hnote : s.note (s.task t)=s.startedAs := by
    rw [htask]
    rfl
  rw [System.next,hadvance]
  refine ⟨rfl,fun n hn => ?_,?_,fun id => ?_,rfl,hnote,rfl⟩
  · exact update_of_ne (Nat.ne_of_lt hn) ..
  · have hrecord : (s.supervisor.insert config (handleOf config) now).records s.supervisor.made =
        .started (handleOf config) config.kind config.protocol.protocolId config.maxRestarts
          config.restartWindowSecs now := update_self ..
    exact ⟨congrArg InstanceRecord.handle hrecord,congrArg InstanceRecord.kind hrecord⟩
  · split_ifs with hid
    · rw [hid]
      exact AList.lookup_insert _
    · exact AList.lookup_insert_ne hid

section
variable {config : CoreConfig}

theorem Inserts.runs_iff (hi : Inserts s s' t config) (j : ι) (id : String) :
    s'.runs j id ↔ s.runs j id := by
  rw [System.runs,hi.mocks]
  rfl

theorem Inserts.keepsRecords (hi : Inserts s s' t config) :
    KeepsRecords s.supervisor s'.supervisor :=
  ⟨by rw [hi.made]; exact Nat.le_succ _,fun n hn => by rw [hi.old n hn],
    fun n hn => by rw [hi.old n hn]⟩

/- The records of the list are the old ones and the new one. -/
theorem Inserts.record_cases (hi : Inserts s s' t config) {n : Nat}
    (hn : n < s'.supervisor.made) :
    (n < s.supervisor.made ∧ s'.supervisor.records n=s.supervisor.records n) ∨
      ((s'.supervisor.records n).handle=handleOf config ∧
        (s'.supervisor.records n).kind=config.kind) := by
  rw [hi.made] at hn
  rcases Nat.lt_succ_iff_lt_or_eq.mp hn with hn | rfl
  · exact Or.inl ⟨hn,hi.old n hn⟩
  · exact Or.inr hi.new

theorem Inserts.owns_old (hi : Inserts s s' t config) {u : τ} {id : String} {j : ι}
    {kind : CoreKind} (hu : (s'.task u).owns=some (id, j, kind)) :
    u≠t ∧ (s.task u).owns=some (id, j, kind) := by
  by_cases hut : u=t
  · rw [hut,hi.task,update_self] at hu
    cases hu
  · rw [hi.task,update_of_ne hut] at hu
    exact ⟨hut,hu⟩
end

/-- The thread that launched a core lists it. -/
theorem Inv.insert (h : Inv adapters s) (htask : s.task t = .inserting config i (handleOf config))
    (hi : Inserts s s' t config) : Inv adapters s' := by
  have howns : (s.task t).owns=some (config.instanceId, i, config.kind) := by
    rw [htask]
    rfl
  obtain ⟨hstarted,hruns,hnone,_⟩ := h.owner t _ _ _ howns
  refine ⟨fun u => ?_,fun j id => ?_,fun j id kind hj => ?_,fun n hn => ?_,fun id n hn => ?_,
    fun j id hj => ?_,fun u id j kind hu => ?_,fun u v id j k kind kind' hu hv => ?_⟩
  · have hidle : Refers adapters s'.supervisor (.succeed .running) := trivial
    rw [hi.task]
    exact refers_update hi.keepsRecords h.refers hidle u
  · rw [hi.mocks,hi.startedAs]
    exact h.entry j id
  · rw [hi.startedAs] at hj
    exact h.placed j id kind hj
  · rw [hi.startedAs]
    rcases hi.record_cases hn with ⟨hn,hold⟩ | ⟨hhandle,hkind⟩
    · rw [hold]
      exact h.record n hn
    · rw [hhandle,hkind]
      exact ⟨rfl,i,hstarted⟩
  · rw [hi.instances] at hn
    split_ifs at hn with hid
    · cases hn
      rw [hi.made,hi.new.1,hi.new.2,hid]
      exact ⟨Nat.lt_succ_self _,rfl,
        Or.inl ⟨i,h.placed _ _ _ hstarted,(hi.runs_iff _ _).mpr hruns⟩⟩
    · obtain ⟨hmade,hhandle,hcase⟩ := h.listed id n hn
      rw [hi.made,hi.old n hmade]
      refine ⟨Nat.lt_succ_of_lt hmade,hhandle,?_⟩
      rcases hcase with ⟨j,hj,hjruns⟩ | ⟨u,hu⟩
      · exact Or.inl ⟨j,hj,(hi.runs_iff j id).mpr hjruns⟩
      · right
        rw [hi.task]
        exact ⟨u,removing_update (by simp [htask]) hu⟩
  · rcases h.running j id ((hi.runs_iff j id).mp hj) with ⟨n,hn,hkind⟩ | ⟨u,kind,hu⟩
    · have hid : id≠config.instanceId := by
        rintro rfl
        exact absurd (hnone.symm.trans hn) nofun
      refine Or.inl ⟨n,by rw [hi.instances,if_neg hid,hn],?_⟩
      rw [hi.old n (h.listed id n hn).1,hkind]
    · by_cases hut : u=t
      · rw [hut,howns,Option.some.injEq,Prod.mk.injEq,Prod.mk.injEq] at hu
        obtain ⟨rfl,rfl,rfl⟩ := hu
        refine Or.inl ⟨s.supervisor.made,by rw [hi.instances,if_pos rfl],?_⟩
        rw [hi.new.2]
        exact h.placed _ _ _ hstarted
      · right
        exact ⟨u,kind,by rw [hi.task,update_of_ne hut,hu]⟩
  · obtain ⟨hut,hu⟩ := hi.owns_old hu
    have hid : id≠config.instanceId := by
      rintro rfl
      exact hut (h.alone u t _ j i kind config.kind hu howns)
    obtain ⟨hjstarted,hjruns,hjnone,hrecords⟩ := h.owner u id j kind hu
    rw [hi.startedAs,hi.instances,if_neg hid]
    refine ⟨hjstarted,(hi.runs_iff j id).mpr hjruns,hjnone,fun n hn hhandle => ?_⟩
    rcases hi.record_cases hn with ⟨hn,hold⟩ | ⟨hnew,_⟩
    · rw [hold] at hhandle ⊢
      exact hrecords n hn hhandle
    · rw [hnew] at hhandle
      exact absurd hhandle.symm hid
  · exact h.alone u v id j k kind kind' (hi.owns_old hu).2 (hi.owns_old hv).2

/-- A core that does not run is taken off the list. -/
theorem Inv.remove (h : Inv adapters s) {id : String} (htask : s.task t = .removing id)
    (hdown : ∀ n, s.supervisor.instances.lookup id=some n → ∀ i, ¬ s.runs i id) :
    Inv adapters (s.become (s.supervisor.remove id) t (.succeed .stopped)) := by
  have howns : ∀ u, (update s.task t (.succeed .stopped) u).owns=(s.task u).owns :=
    owns_update (by rw [htask]; rfl)
  have hlookup : ∀ {id' n}, (s.supervisor.instances.erase id).lookup id'=some n ↔
      id'≠id ∧ s.supervisor.instances.lookup id'=some n := by
    intro id' n
    by_cases hid : id'=id
    · subst hid
      simp
    · simp [hid,AList.lookup_erase_ne hid]
  refine ⟨refers_update (keepsRecords_refl _) h.refers trivial,h.entry,h.placed,h.record,
    fun id' n hn => ?_,fun j id' hj => ?_,fun u id' j kind hu => ?_,
    fun u v id' j k kind kind' hu hv => ?_⟩
  · obtain ⟨hid,hn⟩ := hlookup.mp hn
    obtain ⟨hmade,hhandle,hcase⟩ := h.listed id' n hn
    refine ⟨hmade,hhandle,hcase.imp_right ?_⟩
    rintro ⟨u,hu⟩
    have hne : u≠t := by
      rintro rfl
      rw [htask,Task.removing.injEq] at hu
      exact hid hu.symm
    exact ⟨u,(update_of_ne hne ..).trans hu⟩
  · rcases h.running j id' hj with ⟨n,hn,hkind⟩ | ⟨u,kind,hu⟩
    · have hid : id'≠id := by
        rintro rfl
        exact hdown n hn j hj
      exact Or.inl ⟨n,hlookup.mpr ⟨hid,hn⟩,hkind⟩
    · exact Or.inr ⟨u,kind,(howns u).trans hu⟩
  · obtain ⟨hstarted,hruns,hnone,hrecords⟩ := h.owner u id' j kind ((howns u).symm.trans hu)
    refine ⟨hstarted,hruns,Option.eq_none_iff_forall_ne_some.mpr fun n hn => ?_,hrecords⟩
    exact absurd (hnone.symm.trans (hlookup.mp hn).2) nofun
  · exact h.alone u v id' j k kind kind' ((howns u).symm.trans hu) ((howns v).symm.trans hv)

/-- Counting a restart changes neither handle nor kind of a record. -/
theorem Inv.count (h : Inv adapters s) {n : Nat} (htask : s.task t = .counting n) (now : Instant) :
    Inv adapters (s.become (s.supervisor.countRestart n now) t (.succeed .running)) := by
  have hrecord : ∀ k, ((s.supervisor.countRestart n now).records k).handle =
      (s.supervisor.records k).handle ∧
      ((s.supervisor.countRestart n now).records k).kind=(s.supervisor.records k).kind := by
    intro k
    by_cases hk : k=n
    · subst hk
      have hcounted : (s.supervisor.countRestart k now).records k =
          (s.supervisor.records k).countRestart now := update_self ..
      rw [hcounted]
      exact ⟨rfl,rfl⟩
    · have hsame : (s.supervisor.countRestart n now).records k=s.supervisor.records k :=
        update_of_ne hk ..
      rw [hsame]
      exact ⟨rfl,rfl⟩
  have hf : Frame s (s.become (s.supervisor.countRestart n now) t (.succeed .running)) :=
    ⟨rfl,fun k => (hrecord k).1,fun k => (hrecord k).2,rfl,rfl,fun _ _ => rfl,
      owns_update (by rw [htask]; rfl),fun u id hu => removing_update (by simp [htask]) hu⟩
  have hkeeps : KeepsRecords s.supervisor (s.supervisor.countRestart n now) :=
    ⟨Nat.le_refl _,fun k _ => (hrecord k).1,fun k _ => (hrecord k).2⟩
  refine h.frame hf (refers_update hkeeps h.refers trivial) (fun u id i kind hu => ?_)
    (fun id k i _ _ hruns => Or.inl hruns) (fun i id hruns => Or.inl hruns)
  exact (h.owner u id i kind hu).2.1

theorem adapter_eq_ok_iff {kind : CoreKind} :
    CoreSupervisor.adapter adapters kind = .ok i ↔ adapters kind=some i := by
  rw [CoreSupervisor.adapter]
  cases adapters kind <;> simp

section
variable [DecidableEq ι]

theorem next_resume {now : Instant} {expired : Bool} {supervisor : CoreSupervisor ι}
    {task task' : Task ι} (htask : s.task t=task)
    (hadvance : advance adapters now expired s.supervisor task=(supervisor, task'))
    (hnote : s.note task=s.startedAs) :
    s.next adapters (.resume t now expired)=s.become supervisor t task' := by
  rw [System.next,htask,hadvance,hnote]
  rfl

/-- The sections of a call that find and read a record, and those that fail. -/
theorem Inv.step_read (h : Inv adapters s) {now : Instant} {expired : Bool} {task : Task ι}
    (task' : Task ι) (htask : s.task t=task)
    (hadvance : advance adapters now expired s.supervisor task=(s.supervisor, task'))
    (hnote : s.note task=s.startedAs) (hremoving : ∀ id, task ≠ .removing id)
    (howns : task'.owns=task.owns) (hrefers : Refers adapters s.supervisor task') :
    Inv adapters (s.next adapters (.resume t now expired)) := by
  subst htask
  rw [next_resume rfl hadvance hnote]
  exact h.move hrefers howns hremoving

section
variable {now : Instant} {expired : Bool} {config : CoreConfig} {id : String} {n : Nat} {i : ι}
  {handle : CoreHandle}

theorem Inv.step_checking (h : Inv adapters s) (htask : s.task t = .checking config) :
    Inv adapters (s.next adapters (.resume t now expired)) := by
  cases hlisted : s.supervisor.instances.lookup config.instanceId with
  | some n =>
    exact h.step_read (.fail (.instanceExists config.instanceId)) htask
      (by simp only [advance,hlisted]) rfl nofun rfl trivial
  | none =>
    cases hadapter : CoreSupervisor.adapter adapters config.kind with
    | error e =>
      exact h.step_read (.fail e) htask (by simp only [advance,hlisted,hadapter]) rfl nofun rfl
        trivial
    | ok i =>
      exact h.step_read (.launching config i) htask (by simp only [advance,hlisted,hadapter])
        rfl nofun rfl (adapter_eq_ok_iff.mp hadapter)

theorem Inv.step_launching (h : Inv adapters s) (htask : s.task t = .launching config i)
    (hok : Orderly s (.resume t now expired)) :
    Inv adapters (s.next adapters (.resume t now expired)) := by
  cases hheld : (s.supervisor.mocks i).holds config.instanceId with
  | true =>
    refine h.step_read (.fail (.instanceExists config.instanceId)) htask ?_ ?_ nofun rfl trivial
    · simp only [advance,start_held now hheld]
    · simp [System.note,hheld]
  | false =>
    simp only [Orderly,htask] at hok
    obtain ⟨hunlisted,hfree⟩ := hok hheld
    exact h.launch htask hheld hunlisted hfree (launches_next htask hheld now expired)

/- Nobody else reaches the core, so the first probe finds it running. -/
theorem Inv.step_awaiting (h : Inv adapters s) (htask : s.task t = .awaiting config i handle) :
    Inv adapters (s.next adapters (.resume t now expired)) := by
  have hrefers := h.refers t
  rw [htask] at hrefers
  obtain ⟨hi,rfl⟩ := hrefers
  have howns : (s.task t).owns=some (config.instanceId, i, config.kind) := by
    rw [htask]
    rfl
  have hready : CoreSupervisor.waitForStartupReadiness (s.supervisor.mocks i) (handleOf config) =
      .ok () := readiness_of_runs (h.owner t _ _ _ howns).2.1
  exact h.step_read (.inserting config i (handleOf config)) htask (by simp only [advance,hready])
    rfl nofun rfl ⟨hi,rfl⟩

theorem Inv.step_inserting (h : Inv adapters s) (htask : s.task t = .inserting config i handle) :
    Inv adapters (s.next adapters (.resume t now expired)) := by
  have hrefers := h.refers t
  rw [htask] at hrefers
  obtain ⟨_,rfl⟩ := hrefers
  exact h.insert htask (inserts_next htask now expired)

theorem Inv.step_finding (h : Inv adapters s) (htask : s.task t = .finding id) :
    Inv adapters (s.next adapters (.resume t now expired)) := by
  cases hlisted : s.supervisor.instances.lookup id with
  | none =>
    exact h.step_read (.fail (.instanceNotFound id)) htask (by simp only [advance,hlisted]) rfl nofun
      rfl trivial
  | some n =>
    obtain ⟨hmade,hid,_⟩ := h.listed id n hlisted
    exact h.step_read (.resolving id n) htask (by simp only [advance,hlisted]) rfl nofun rfl
      ⟨hmade,hid⟩

theorem Inv.step_resolving (h : Inv adapters s) (htask : s.task t = .resolving id n) :
    Inv adapters (s.next adapters (.resume t now expired)) := by
  have hrefers := h.refers t
  rw [htask] at hrefers
  cases hadapter : CoreSupervisor.adapter adapters (s.supervisor.records n).kind with
  | error e =>
    exact h.step_read (.fail e) htask (by simp only [advance,hadapter]) rfl nofun rfl trivial
  | ok i =>
    exact h.step_read (.reading id n i) htask (by simp only [advance,hadapter]) rfl nofun rfl
      ⟨hrefers.1,hrefers.2,adapter_eq_ok_iff.mp hadapter⟩

theorem Inv.step_reading (h : Inv adapters s) (htask : s.task t = .reading id n i) :
    Inv adapters (s.next adapters (.resume t now expired)) := by
  have hrefers := h.refers t
  rw [htask] at hrefers
  exact h.step_read (.stopping id i (s.supervisor.records n).handle) htask rfl rfl nofun rfl
    ⟨n,hrefers.1,rfl,hrefers.2⟩

theorem Inv.step_stopping (h : Inv adapters s) (htask : s.task t = .stopping id i handle) :
    Inv adapters (s.next adapters (.resume t now expired)) := by
  have hrefers := h.refers t
  rw [htask] at hrefers
  obtain ⟨n,hn,hhandle,hid,hi⟩ := hrefers
  cases hstop : (s.supervisor.mocks i).stop handle with
  | error e =>
    exact h.step_read (.fail e) htask (by simp only [advance,hstop]) rfl nofun rfl trivial
  | ok m =>
    have hadvance : advance adapters now expired s.supervisor (.stopping id i handle) =
        (s.supervisor.setMock i m, .removing id) := by simp only [advance,hstop]
    have hquiet : (s.task t).owns=none ∧ ∀ id, s.task t ≠ .removing id := by
      rw [htask]
      exact ⟨rfl,nofun⟩
    rw [next_resume htask hadvance rfl]
    exact h.write hstop (fun _ => rfl) ⟨n,hn,hhandle,hi⟩ hquiet trivial rfl
      (fun _ => by rw [hid]) nofun

theorem Inv.step_removing (h : Inv adapters s) (htask : s.task t = .removing id)
    (hok : Orderly s (.resume t now expired)) :
    Inv adapters (s.next adapters (.resume t now expired)) := by
  simp only [Orderly,htask] at hok
  rw [next_resume htask rfl rfl]
  exact h.remove htask hok

theorem Inv.step_looking (h : Inv adapters s) (htask : s.task t = .looking id) :
    Inv adapters (s.next adapters (.resume t now expired)) := by
  cases hlisted : s.supervisor.instances.lookup id with
  | none =>
    exact h.step_read (.fail (.instanceNotFound id)) htask (by simp only [advance,hlisted]) rfl nofun
      rfl trivial
  | some n =>
    exact h.step_read (.opening n) htask (by simp only [advance,hlisted]) rfl nofun rfl
      (h.listed id n hlisted).1

theorem Inv.step_opening (h : Inv adapters s) (htask : s.task t = .opening n) :
    Inv adapters (s.next adapters (.resume t now expired)) := by
  have hrefers := h.refers t
  rw [htask] at hrefers
  cases hadapter : CoreSupervisor.adapter adapters (s.supervisor.records n).kind with
  | error e =>
    exact h.step_read (.fail e) htask (by simp only [advance,hadapter]) rfl nofun rfl trivial
  | ok i =>
    exact h.step_read (.restarting n i (s.supervisor.records n).handle) htask
      (by simp only [advance,hadapter]) rfl nofun rfl
      ⟨hrefers,rfl,adapter_eq_ok_iff.mp hadapter⟩

theorem Inv.step_restarting (h : Inv adapters s) (htask : s.task t = .restarting n i handle)
    (hok : Orderly s (.resume t now expired)) :
    Inv adapters (s.next adapters (.resume t now expired)) := by
  have hrefers := h.refers t
  rw [htask] at hrefers
  obtain ⟨hn,hhandle,hi⟩ := hrefers
  simp only [Orderly,htask] at hok
  obtain ⟨k,hk,hkind⟩ := hok
  cases hrestart : (s.supervisor.mocks i).restart handle now with
  | error e =>
    exact h.step_read (.fail e) htask (by simp only [advance,hrestart]) rfl nofun rfl trivial
  | ok m =>
    have hadvance : advance adapters now expired s.supervisor (.restarting n i handle) =
        (s.supervisor.setMock i m, .probing n i handle) := by simp only [advance,hrestart]
    have hquiet : (s.task t).owns=none ∧ ∀ id, s.task t ≠ .removing id := by
      rw [htask]
      exact ⟨rfl,nofun⟩
    have hsame : adapters (s.supervisor.records k).kind=some i := by
      rw [hkind,← hhandle,(h.record n hn).1,hi]
    rw [next_resume htask hadvance rfl]
    exact h.write hrestart (fun _ => rfl) ⟨n,hn,hhandle,hi⟩ hquiet trivial rfl
      (fun hne => absurd rfl hne) fun _ => ⟨k,hk,hsame⟩

theorem Inv.step_probing (h : Inv adapters s) (htask : s.task t = .probing n i handle) :
    Inv adapters (s.next adapters (.resume t now expired)) := by
  cases hready : CoreSupervisor.waitForStartupReadiness (s.supervisor.mocks i) handle with
  | ok _ =>
    exact h.step_read (.counting n) htask (by simp only [advance,hready]) rfl nofun rfl trivial
  | error e =>
    cases expired with
    | true => exact h.step_read (.fail e) htask (by simp [advance,hready]) rfl nofun rfl trivial
    | false =>
      exact h.step_read (.probing n i handle) htask (by simp [advance,hready]) rfl nofun rfl
        trivial

theorem Inv.step_counting (h : Inv adapters s) (htask : s.task t = .counting n) :
    Inv adapters (s.next adapters (.resume t now expired)) := by
  rw [next_resume htask rfl rfl]
  exact h.count htask now
end

theorem Inv.step_call (h : Inv adapters s) (t : τ) (call : Call) :
    Inv adapters (s.next adapters (.call t call)) := by
  rw [System.next]
  cases htask : s.task t with
  | idle result =>
    refine h.move ?_ ?_ (by simp [htask])
    · cases call <;> exact trivial
    · rw [htask]
      cases call <;> rfl
  | _ => exact h

theorem Inv.step (h : Inv adapters s) {event : Event τ} (hok : Orderly s event) :
    Inv adapters (s.next adapters event) := by
  cases event with
  | call t call => exact h.step_call t call
  | resume t now expired =>
    cases htask : s.task t with
    | idle result => exact h.step_read (.idle result) htask rfl rfl nofun rfl trivial
    | checking config => exact h.step_checking htask
    | launching config i => exact h.step_launching htask hok
    | awaiting config i handle => exact h.step_awaiting htask
    | inserting config i handle => exact h.step_inserting htask
    | cleaning i handle error =>
      -- a start never gives up
      have hrefers := h.refers t
      rw [htask] at hrefers
      exact hrefers.elim
    | finding id => exact h.step_finding htask
    | resolving id n => exact h.step_resolving htask
    | reading id n i => exact h.step_reading htask
    | stopping id i handle => exact h.step_stopping htask
    | removing id => exact h.step_removing htask hok
    | looking id => exact h.step_looking htask
    | opening n => exact h.step_opening htask
    | restarting n i handle => exact h.step_restarting htask hok
    | probing n i handle => exact h.step_probing htask
    | counting n => exact h.step_counting htask
end

omit [DecidableEq τ] in
theorem Inv.agreement (h : Inv adapters s) (hquiet : s.Quiet) : Agreement s := by
  have hfree : ∀ u id i kind, (s.task u).owns≠some (id, i, kind) := by
    intro u id i kind
    obtain ⟨result,hu⟩ := hquiet u
    rw [hu]
    nofun
  have hlisted : ∀ i id, s.runs i id → ∃ n, s.supervisor.instances.lookup id=some n ∧
      adapters (s.supervisor.records n).kind=some i := by
    intro i id hruns
    rcases h.running i id hruns with hn | ⟨u,kind,hu⟩
    · exact hn
    · exact absurd hu (hfree u id i kind)
  have hkind : ∀ id n i, s.supervisor.instances.lookup id=some n →
      adapters (s.supervisor.records n).kind=some i →
      s.startedAs i id=some (s.supervisor.records n).kind := by
    intro id n i hn hi
    obtain ⟨hmade,hid,_⟩ := h.listed id n hn
    have hstarted := h.started_of_record hmade hi
    rwa [hid] at hstarted
  refine ⟨fun i j id hi hj => ?_,fun i id hruns => ?_,fun id n hn => ?_⟩
  · obtain ⟨n,hn,hin⟩ := hlisted i id hi
    obtain ⟨m,hm,hjm⟩ := hlisted j id hj
    rw [Option.some.inj (hn.symm.trans hm)] at hin
    exact Option.some.inj (hin.symm.trans hjm)
  · obtain ⟨n,hn,hi⟩ := hlisted i id hruns
    exact ⟨n,hn,hkind id n i hn hi⟩
  · obtain ⟨_,_,⟨i,hi,hruns⟩ | ⟨u,hu⟩⟩ := h.listed id n hn
    · exact ⟨i,hruns,hkind id n i hn hi⟩
    · obtain ⟨result,hidle⟩ := hquiet u
      rw [hidle] at hu
      cases hu
end

end AetherX.CoreThreads
