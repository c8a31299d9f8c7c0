import AetherX.ManagedProcess

/-! The supervisor over its in-process adapters. Both keep a map of instances: a stopped
core leaves the supervisor's map, and stays in the adapter's. -/
namespace AetherX.MockCores
open Supervisor Machine ManagedProcess

/- An entry is made running, and only ever stopped or restarted. -/
structure MockState where
  status : CoreStatus
  startedAt : Option Instant
  restarts : Nat
  live : status = .running ∨ status = .stopped

structure MockCore where
  instances : AList fun _ : String => MockState

namespace MockCore
def start (m : MockCore) (config : CoreConfig) (now : Instant) :
    Except SupervisorError (MockCore × CoreHandle) :=
  match m.instances.lookup config.instanceId with
  | some _ => .error (.instanceExists config.instanceId)
  | none => .ok (⟨m.instances.insert config.instanceId ⟨.running,some now,0,.inl rfl⟩⟩,
      ⟨config.instanceId,config.kind,config.protocol.protocolId⟩)

def modify (m : MockCore) (handle : CoreHandle) (f : MockState → MockState) :
    Except SupervisorError MockCore :=
  match m.instances.lookup handle.instanceId with
  | none => .error (.instanceNotFound handle.instanceId)
  | some st => .ok ⟨m.instances.insert handle.instanceId (f st)⟩

/- Draining only delays the write, and nobody else gets at the entry meanwhile. -/
def stop (m : MockCore) (handle : CoreHandle) : Except SupervisorError MockCore :=
  m.modify handle fun st => { st with status := .stopped, live := .inr rfl }

def restart (m : MockCore) (handle : CoreHandle) (now : Instant) :
    Except SupervisorError MockCore :=
  m.modify handle fun st =>
    ⟨.running,some now,st.restarts+1,.inl rfl⟩

def health (m : MockCore) (handle : CoreHandle) : Except SupervisorError HealthStatus :=
  match m.instances.lookup handle.instanceId with
  | none => .error (.instanceNotFound handle.instanceId)
  | some st => .ok ⟨st.status,if st.status = .running then 1 else 0⟩

def holds (m : MockCore) (id : String) : Bool := (m.instances.lookup id).isSome

def runs (m : MockCore) (id : String) : Prop :=
  (m.instances.lookup id).map MockState.status=some .running

instance (m : MockCore) (id : String) : Decidable (m.runs id) :=
  inferInstanceAs (Decidable (_=_))

end MockCore

/- The supervisor, its records behind the pointers that calls share, and the adapters. -/
structure CoreSupervisor (ι : Type*) where
  instances : AList fun _ : String => Nat
  records : Nat → InstanceRecord
  made : Nat
  mocks : ι → MockCore

namespace CoreSupervisor
variable {ι : Type*} [DecidableEq ι]

def new (memory : Nat → InstanceRecord) : CoreSupervisor ι := ⟨∅,memory,0,fun _ => ⟨∅⟩⟩

def adapter (adapters : CoreKind → Option ι) (kind : CoreKind) : Except SupervisorError ι :=
  match adapters kind with
  | some i => .ok i
  | none => .error (.generic ("no adapter for " ++ kindName kind))

def setMock (s : CoreSupervisor ι) (i : ι) (m : MockCore) : CoreSupervisor ι :=
  { s with mocks := Function.update s.mocks i m }

def insert (s : CoreSupervisor ι) (config : CoreConfig) (handle : CoreHandle) (now : Instant) :
    CoreSupervisor ι :=
  { s with
    instances := s.instances.insert config.instanceId s.made
    records := Function.update s.records s.made (.started handle config.kind
      config.protocol.protocolId config.maxRestarts config.restartWindowSecs now)
    made := s.made+1 }

def remove (s : CoreSupervisor ι) (id : String) : CoreSupervisor ι :=
  { s with instances := s.instances.erase id }

def countRestart (s : CoreSupervisor ι) (n : Nat) (now : Instant) : CoreSupervisor ι :=
  { s with records := Function.update s.records n ((s.records n).countRestart now) }

/- What the probing comes to while nobody else touches the adapter. -/
def waitForStartupReadiness (m : MockCore) (handle : CoreHandle) : Except SupervisorError Unit :=
  match m.health handle with
  | .ok ⟨.running,_⟩ => .ok ()
  | _ => .error (.generic ("core " ++ handle.instanceId ++ " did not become ready within 5s"))

def startCore (adapters : CoreKind → Option ι) (s : CoreSupervisor ι) (config : CoreConfig)
    (now : Instant) : CoreSupervisor ι × Except SupervisorError CoreStatus :=
  match s.instances.lookup config.instanceId with
  | some _ => (s, .error (.instanceExists config.instanceId))
  | none =>
    match adapter adapters config.kind with
    | .error e => (s, .error e)
    | .ok i =>
      match (s.mocks i).start config now with
      | .error e => (s, .error e)
      | .ok (m, handle) =>
        match waitForStartupReadiness m handle with
        | .ok () => ((s.setMock i m).insert config handle now, .ok .running)
        | .error e =>
          match m.stop handle with
          | .ok m => (s.setMock i m, .error e)
          | .error _ => (s.setMock i m, .error e)

def stopCore (adapters : CoreKind → Option ι) (s : CoreSupervisor ι) (id : String) :
    CoreSupervisor ι × Except SupervisorError CoreStatus :=
  match s.instances.lookup id with
  | none => (s, .error (.instanceNotFound id))
  | some n =>
    match adapter adapters (s.records n).kind with
    | .error e => (s, .error e)
    | .ok i =>
      match (s.mocks i).stop (s.records n).handle with
      | .error e => (s, .error e)
      | .ok m => ((s.setMock i m).remove id, .ok .stopped)

def restartCore (adapters : CoreKind → Option ι) (s : CoreSupervisor ι) (id : String)
    (now : Instant) : CoreSupervisor ι × Except SupervisorError CoreStatus :=
  match s.instances.lookup id with
  | none => (s, .error (.instanceNotFound id))
  | some n =>
    match adapter adapters (s.records n).kind with
    | .error e => (s, .error e)
    | .ok i =>
      match (s.mocks i).restart (s.records n).handle now with
      | .error e => (s, .error e)
      | .ok m =>
        match waitForStartupReadiness m (s.records n).handle with
        | .error e => (s.setMock i m, .error e)
        | .ok () => ((s.setMock i m).countRestart n now, .ok .running)

def lists (s : CoreSupervisor ι) (id : String) : Bool := (s.instances.lookup id).isSome

end CoreSupervisor

section
variable {m m' : MockCore} {handle : CoreHandle} {f : MockState → MockState}

theorem holds_insert (m : MockCore) (id id' : String) (st : MockState) :
    (MockCore.mk (m.instances.insert id st)).holds id'=(decide (id'=id) || m.holds id') := by
  by_cases h : id'=id
  · subst h
    simp [MockCore.holds,AList.lookup_insert]
  · simp [MockCore.holds,AList.lookup_insert_ne h,h]

theorem runs_insert (m : MockCore) (id id' : String) (st : MockState) :
    (MockCore.mk (m.instances.insert id st)).runs id' ↔
      if id'=id then st.status = .running else m.runs id' := by
  by_cases h : id'=id
  · subst h
    simp [MockCore.runs,AList.lookup_insert]
  · simp [MockCore.runs,AList.lookup_insert_ne h,h]

/-- What a write to an entry needs, and what it leaves. -/
theorem modify_eq_ok_iff :
    m.modify handle f = .ok m' ↔ ∃ st, m.instances.lookup handle.instanceId=some st ∧
      m'=⟨m.instances.insert handle.instanceId (f st)⟩ := by
  rw [MockCore.modify]
  cases hheld : m.instances.lookup handle.instanceId with
  | none => simp
  | some st => simp [eq_comm]

theorem holds_modify (h : m.modify handle f = .ok m') (id : String) : m'.holds id=m.holds id := by
  obtain ⟨st,hst,rfl⟩ := modify_eq_ok_iff.mp h
  rw [holds_insert]
  by_cases hid : id=handle.instanceId
  · rw [hid,MockCore.holds,hst,Option.isSome_some,Bool.or_true]
  · simp [hid]

theorem runs_modify (h : m.modify handle f = .ok m') {status : CoreStatus}
    (hf : ∀ st, (f st).status=status) (id : String) :
    m'.runs id ↔ if id=handle.instanceId then status = .running else m.runs id := by
  obtain ⟨st,_,rfl⟩ := modify_eq_ok_iff.mp h
  rw [runs_insert,hf]

theorem readiness_of_runs (h : m.runs handle.instanceId) :
    CoreSupervisor.waitForStartupReadiness m handle = .ok () := by
  rw [MockCore.runs,Option.map_eq_some_iff] at h
  obtain ⟨st,hst,hstatus⟩ := h
  rw [CoreSupervisor.waitForStartupReadiness,MockCore.health,hst]
  simp [hstatus]
end

/- The one adapter behind every kind that has one. -/
def defaultAdapters : CoreKind → Option Unit
  | .unspecified => none
  | _ => some ()

inductive Call where
  | startCore (config : CoreConfig) (now : Instant)
  | stopCore (id : String)
  | restartCore (id : String) (now : Instant)

section
variable {ι : Type*} [DecidableEq ι] {adapters : CoreKind → Option ι} {s : CoreSupervisor ι}

def SameEntries (s t : CoreSupervisor ι) : Prop := ∀ i id, (t.mocks i).holds id=(s.mocks i).holds id

@[simp]
theorem setMock_mocks_self (s : CoreSupervisor ι) (i : ι) (m : MockCore) :
    (s.setMock i m).mocks i=m :=
  Function.update_self ..

variable {i : ι} {m : MockCore} {config : CoreConfig} {now : Instant}

theorem setMock_mocks_ne (s : CoreSupervisor ι) {j : ι} (h : j≠i) (m : MockCore) :
    (s.setMock i m).mocks j=s.mocks j :=
  Function.update_of_ne h ..

theorem runs_setMock {f : MockState → MockState} {handle : CoreHandle} {status : CoreStatus}
    (hm : (s.mocks i).modify handle f = .ok m) (hf : ∀ st, (f st).status=status) (j : ι)
    (id : String) :
    ((s.setMock i m).mocks j).runs id ↔
      if j=i ∧ id=handle.instanceId then status = .running else (s.mocks j).runs id := by
  by_cases hj : j=i
  · subst hj
    simp only [setMock_mocks_self,runs_modify hm hf,true_and]
  · simp only [setMock_mocks_ne _ hj,hj,false_and,if_false]

theorem sameEntries_setMock (h : ∀ id, m.holds id=(s.mocks i).holds id) :
    SameEntries s (s.setMock i m) := by
  intro j id
  by_cases hj : j=i
  · subst hj
    rw [setMock_mocks_self]
    exact h id
  · rw [setMock_mocks_ne s hj]

theorem startCore_listed (h : s.lists config.instanceId=true) :
    s.startCore adapters config now=(s, .error (.instanceExists config.instanceId)) := by
  rw [CoreSupervisor.lists,Option.isSome_iff_exists] at h
  obtain ⟨n,hn⟩ := h
  rw [CoreSupervisor.startCore,hn]

theorem startCore_no_adapter (hlists : s.lists config.instanceId=false)
    (hkind : adapters config.kind=none) :
    s.startCore adapters config now =
      (s, .error (.generic ("no adapter for " ++ kindName config.kind))) := by
  rw [CoreSupervisor.lists,Option.isSome_eq_false_iff,Option.isNone_iff_eq_none] at hlists
  rw [CoreSupervisor.startCore,hlists,CoreSupervisor.adapter,hkind]

def launched (m : MockCore) (id : String) (now : Instant) : MockCore :=
  ⟨m.instances.insert id ⟨.running,some now,0,.inl rfl⟩⟩

def handleOf (config : CoreConfig) : CoreHandle :=
  ⟨config.instanceId,config.kind,config.protocol.protocolId⟩

theorem start_held (now : Instant) (h : m.holds config.instanceId=true) :
    m.start config now = .error (.instanceExists config.instanceId) := by
  rw [MockCore.holds,Option.isSome_iff_exists] at h
  obtain ⟨st,hst⟩ := h
  rw [MockCore.start,hst]

theorem start_vacant (now : Instant) (h : m.holds config.instanceId=false) :
    m.start config now = .ok (launched m config.instanceId now, handleOf config) := by
  rw [MockCore.holds,Option.isSome_eq_false_iff,Option.isNone_iff_eq_none] at h
  rw [MockCore.start,h]
  rfl

theorem startCore_held (hlists : s.lists config.instanceId=false)
    (hkind : adapters config.kind=some i) (hheld : (s.mocks i).holds config.instanceId=true) :
    s.startCore adapters config now=(s, .error (.instanceExists config.instanceId)) := by
  rw [CoreSupervisor.lists,Option.isSome_eq_false_iff,Option.isNone_iff_eq_none] at hlists
  rw [CoreSupervisor.startCore,hlists,CoreSupervisor.adapter,hkind]
  simp only [start_held now hheld]

theorem runs_launched (m : MockCore) (id : String) (now : Instant) : (launched m id now).runs id := by
  rw [launched,runs_insert,if_pos rfl]

theorem startCore_vacant (hlists : s.lists config.instanceId=false)
    (hkind : adapters config.kind=some i)
    (hvacant : (s.mocks i).holds config.instanceId=false) :
    s.startCore adapters config now =
      ((s.setMock i (launched (s.mocks i) config.instanceId now)).insert config (handleOf config)
        now, .ok .running) := by
  have hready : CoreSupervisor.waitForStartupReadiness
      (launched (s.mocks i) config.instanceId now) (handleOf config) = .ok () :=
    readiness_of_runs (runs_launched (s.mocks i) config.instanceId now)
  rw [CoreSupervisor.lists,Option.isSome_eq_false_iff,Option.isNone_iff_eq_none] at hlists
  rw [CoreSupervisor.startCore,hlists,CoreSupervisor.adapter,hkind]
  simp only [start_vacant now hvacant,hready]

/-- A stop that succeeds takes the instance off the list and leaves every entry. -/
theorem stopCore_cases (adapters : CoreKind → Option ι) (s : CoreSupervisor ι) (id : String) :
    (∃ e, s.stopCore adapters id=(s, .error e)) ∨
      ∃ t, s.stopCore adapters id=(t.remove id, .ok .stopped) ∧
        s.lists id=true ∧ SameEntries s t ∧ t.instances=s.instances := by
  rw [CoreSupervisor.stopCore,CoreSupervisor.lists]
  cases hlisted : s.instances.lookup id with
  | none => exact Or.inl ⟨_,rfl⟩
  | some n =>
    cases hadapter : CoreSupervisor.adapter adapters (s.records n).kind with
    | error e => exact Or.inl ⟨e,by simp only [hadapter]⟩
    | ok i =>
      cases hstop : (s.mocks i).stop (s.records n).handle with
      | error e => exact Or.inl ⟨e,by simp only [hadapter,hstop]⟩
      | ok m =>
        refine Or.inr ⟨s.setMock i m,by simp only [hadapter,hstop],rfl,?_,rfl⟩
        exact sameEntries_setMock (holds_modify hstop)

theorem restartCore_same (adapters : CoreKind → Option ι) (s : CoreSupervisor ι) (id : String)
    (now : Instant) :
    SameEntries s (s.restartCore adapters id now).1 ∧
      (s.restartCore adapters id now).1.instances=s.instances := by
  have hsame : SameEntries s s := fun _ _ => rfl
  rw [CoreSupervisor.restartCore]
  cases hlisted : s.instances.lookup id with
  | none => exact ⟨hsame,rfl⟩
  | some n =>
    cases hadapter : CoreSupervisor.adapter adapters (s.records n).kind with
    | error e =>
      simp only [hadapter]
      exact ⟨hsame,trivial⟩
    | ok i =>
      cases hrestart : (s.mocks i).restart (s.records n).handle now with
      | error e =>
        simp only [hadapter,hrestart]
        exact ⟨hsame,trivial⟩
      | ok m =>
        have hset : SameEntries s (s.setMock i m) := sameEntries_setMock (holds_modify hrestart)
        simp only [hadapter,hrestart]
        cases CoreSupervisor.waitForStartupReadiness m (s.records n).handle with
        | error e => exact ⟨hset,rfl⟩
        | ok _ => exact ⟨hset,rfl⟩
end

/- The supervisor with the instances that a call of stop_core has stopped so far. -/
structure Session where
  supervisor : CoreSupervisor Unit
  stopped : List String

def Session.next (s : Session) : Call → Session
  | .startCore config now =>
    { s with supervisor := (s.supervisor.startCore defaultAdapters config now).1 }
  | .stopCore id =>
    match s.supervisor.stopCore defaultAdapters id with
    | (supervisor, .ok _) => ⟨supervisor,id::s.stopped⟩
    | (supervisor, .error _) => ⟨supervisor,s.stopped⟩
  | .restartCore id now =>
    { s with supervisor := (s.supervisor.restartCore defaultAdapters id now).1 }

def session (memory : Nat → InstanceRecord) (calls : List Call) : Session :=
  calls.foldl Session.next ⟨.new memory,[]⟩

/-- The adapter holds what is listed and what was stopped. -/
def Remembers (s : Session) : Prop :=
  ∀ id, (s.supervisor.mocks ()).holds id=true ↔ s.supervisor.lists id=true ∨ id∈s.stopped

theorem Remembers.startCore {s : Session} (h : Remembers s) (config : CoreConfig) (now : Instant) :
    Remembers (s.next (.startCore config now)) := by
  rw [Session.next]
  cases hlists : s.supervisor.lists config.instanceId with
  | true =>
    rw [startCore_listed hlists]
    exact h
  | false =>
    cases hkind : defaultAdapters config.kind with
    | none =>
      rw [startCore_no_adapter hlists hkind]
      exact h
    | some i =>
      cases hheld : (s.supervisor.mocks i).holds config.instanceId with
      | true =>
        rw [startCore_held hlists hkind hheld]
        exact h
      | false =>
        rw [startCore_vacant hlists hkind hheld]
        intro id
        by_cases hid : id=config.instanceId
        · subst hid
          simp [CoreSupervisor.insert,CoreSupervisor.setMock,CoreSupervisor.lists,launched,
            holds_insert]
        · have hold := h id
          simpa [CoreSupervisor.insert,CoreSupervisor.setMock,CoreSupervisor.lists,launched,
            holds_insert,hid,AList.lookup_insert_ne hid] using hold

theorem Remembers.stopCore {s : Session} (h : Remembers s) (stopped : String) :
    Remembers (s.next (.stopCore stopped)) := by
  rw [Session.next]
  rcases stopCore_cases defaultAdapters s.supervisor stopped with ⟨e,he⟩ | ⟨t,ht,hlists,hsame,hinst⟩
  · rw [he]
    exact h
  · rw [ht]
    intro id
    have hold := h id
    rw [← hsame () id] at hold
    by_cases hid : id=stopped
    · subst hid
      simp [CoreSupervisor.remove,hold,hlists]
    · simpa [CoreSupervisor.remove,CoreSupervisor.lists,hinst,hid,AList.lookup_erase_ne hid]
        using hold

theorem Remembers.restartCore {s : Session} (h : Remembers s) (id : String) (now : Instant) :
    Remembers (s.next (.restartCore id now)) := by
  obtain ⟨hsame,hinst⟩ := restartCore_same defaultAdapters s.supervisor id now
  intro id'
  rw [Session.next,hsame () id',CoreSupervisor.lists,hinst]
  exact h id'

theorem remembers_session (memory : Nat → InstanceRecord) (calls : List Call) :
    Remembers (session memory calls) := by
  have hnew : Remembers ⟨.new memory,[]⟩ := by
    intro id
    simp [CoreSupervisor.new,CoreSupervisor.lists,MockCore.holds]
  refine (run_foldl Session.next calls _).invariant hnew ?_
  rintro s call t h rfl
  cases call with
  | startCore config now => exact h.startCore config now
  | stopCore id => exact h.stopCore id
  | restartCore id now => exact h.restartCore id now

/-- A start finds the instance taken exactly when it is listed; in particular an instance
that was stopped can be started again. -/
def Reusable (s : Session) (config : CoreConfig) (now : Instant) : Prop :=
  ((s.supervisor.startCore defaultAdapters config now).2 =
      .error (.instanceExists config.instanceId) ↔
    s.supervisor.lists config.instanceId=true) ∧
  (config.instanceId∈s.stopped → s.supervisor.lists config.instanceId=false →
    (defaultAdapters config.kind).isSome →
    (s.supervisor.startCore defaultAdapters config now).2 = .ok .running)

/-- After any calls an id can be used again exactly if it is in use, or was never stopped, or is
asked for with a kind that no adapter serves. -/
theorem id_reusable_iff (memory : Nat → InstanceRecord) (calls : List Call) (config : CoreConfig)
    (now : Instant) :
    Reusable (session memory calls) config now ↔
      (session memory calls).supervisor.lists config.instanceId=true ∨
        defaultAdapters config.kind=none ∨
        config.instanceId∉(session memory calls).stopped := by
  have hremembers := remembers_session memory calls config.instanceId
  generalize session memory calls=s at hremembers ⊢
  rw [Reusable]
  cases hlists : s.supervisor.lists config.instanceId with
  | true =>
    rw [startCore_listed hlists]
    simp
  | false =>
    cases hkind : defaultAdapters config.kind with
    | none =>
      rw [startCore_no_adapter hlists hkind]
      simp
    | some i =>
      rw [hlists] at hremembers
      cases hheld : (s.supervisor.mocks i).holds config.instanceId with
      | true =>
        rw [startCore_held hlists hkind hheld]
        have hstopped : config.instanceId∈s.stopped := by simpa [hheld] using hremembers
        simp [hstopped]
      | false =>
        rw [startCore_vacant hlists hkind hheld]
        have hstopped : config.instanceId∉s.stopped := by simpa [hheld] using hremembers
        simp [hstopped]

def mockConfig (id : String) (kind : CoreKind) : CoreConfig :=
  ⟨id,kind,⟨"mock",.object [], "127.0.0.1:0"⟩,3,60⟩

def blankRecord : InstanceRecord := .started ⟨"",.unspecified, ""⟩ .unspecified "" 0 0 0

theorem id_reusable_iff_listed :
    Reusable (session (fun _ => blankRecord) [.startCore (mockConfig "svc-1" .singBox) 1])
      (mockConfig "svc-1" .xray) 2 := by
  refine (id_reusable_iff (fun _ => blankRecord) _ _ 2).mpr (Or.inl ?_)
  decide +kernel

theorem stopped_id_not_reusable :
    ¬ ∀ (memory : Nat → InstanceRecord) (calls : List Call) (config : CoreConfig) (now : Instant),
      Reusable (session memory calls) config now := by
  intro h
  have hrun := h (fun _ => blankRecord)
    [.startCore (mockConfig "svc-1" .singBox) 1,.stopCore "svc-1"] (mockConfig "svc-1" .singBox) 2
  have hlists : (session (fun _ => blankRecord) [.startCore (mockConfig "svc-1" .singBox) 1,
      .stopCore "svc-1"]).supervisor.lists "svc-1" = false := by decide +kernel
  have hexists : ((session (fun _ => blankRecord) [.startCore (mockConfig "svc-1" .singBox) 1,
      .stopCore "svc-1"]).supervisor.startCore defaultAdapters (mockConfig "svc-1" .singBox) 2).2 =
      .error (.instanceExists "svc-1") := by decide +kernel
  exact Bool.false_ne_true (hlists.symm.trans (hrun.1.mp hexists))

end AetherX.MockCores
