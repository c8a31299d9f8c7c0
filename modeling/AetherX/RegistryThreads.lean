import AetherX.ModelRegistry

/-! Threads on one model registry. A call takes its locks one after the other, and other
threads may run in between; the evidence is filed under the kind, not under the artifact. -/
namespace AetherX.RegistryThreads
open ModelRegistry Machine Function List
variable {τ : Type*} [DecidableEq τ]

/- The artifacts of one kind are told apart by the number of their load, counted from one. -/
structure Load where
  kind : ModelKind
  number : Nat
  deriving DecidableEq

structure Outcome where
  seen : Load
  modelSucceeded : Bool
  fsmSucceeded : Bool

def evaluationOf (outcomes : List Outcome) : ShadowEvaluation :=
  outcomes.foldl (fun e o => e.observe o.modelSucceeded o.fsmSucceeded) .default

/- What was true of an artifact when it was promoted: since when it was loaded, how many decisions
   were recorded for it, and the outcomes that its evaluation was made of. -/
structure Promotion where
  load : Load
  insertedAt : Instant
  promotedAt : Instant
  recorded : Nat
  outcomes : List Outcome

/-- The artifact had itself been in shadow long enough, with enough decisions of its own and a
passing evaluation of outcomes reported while it was loaded. -/
structure Promotion.Lawful (p : Promotion) : Prop where
  duration : p.insertedAt+shadowMinDuration ≤ p.promotedAt
  decisions : shadowMinDecisions.toNat ≤ p.recorded
  quality : (evaluationOf p.outcomes).meetsPromotionQualityGate=true
  outcomes : ∀ o∈p.outcomes, o.seen=p.load

/- The past of a registry, which the program does not keep and no branch reads. -/
structure History where
  loads : ModelKind → Nat
  insertedAt : Load → Instant
  recorded : Load → Nat
  evidence : ModelKind → List Outcome
  promotions : List Promotion

namespace History
variable (h : History)

def new : History := ⟨fun _ => 0,fun _ => 0,fun _ => 0,fun _ => [],[]⟩

def current (kind : ModelKind) : Load := ⟨kind,h.loads kind⟩

@[simp]
theorem current_kind (kind : ModelKind) : (h.current kind).kind=kind := rfl

def insert (kind : ModelKind) (now : Instant) : History :=
  { h with
    loads := update h.loads kind (h.loads kind+1)
    insertedAt := update h.insertedAt ⟨kind,h.loads kind+1⟩ now }

def reset (kind : ModelKind) : History :=
  { h with evidence := update h.evidence kind [] }

def count (seen : Load) : History :=
  { h with recorded := update h.recorded seen (h.recorded seen+1) }

def report (o : Outcome) : History :=
  { h with evidence := update h.evidence o.seen.kind (h.evidence o.seen.kind++[o]) }

def promotion (load : Load) (now : Instant) (outcomes : List Outcome) : Promotion :=
  ⟨load,h.insertedAt load,now,h.recorded load,outcomes⟩

def promote (kind : ModelKind) (now : Instant) (outcomes : List Outcome) : History :=
  { h with promotions := h.promotions++[h.promotion (h.current kind) now outcomes] }

end History

/- What a thread still has to do, with what it has read so far. -/
inductive Task where
  | idle
  | inserting (kind : ModelKind) (artifact : ModelArtifact)
  | resetting (kind : ModelKind)
  | logging (seen : Load) (entry : ShadowDecision)
  | counting (seen : Load)
  | observing (outcome : Outcome)
  | checking (seen : Load) (artifact : Option ModelArtifact)
  | assessing (seen : Load) (artifact : Option ModelArtifact) (evaluation : Option ShadowEvaluation)
      (outcomes : List Outcome)
  | promoting (seen : Load) (outcomes : List Outcome)

inductive Call where
  | loadArtifact (kind : ModelKind) (version : String) (artifactBytes : Bytes) (signature : Signature)
  | recordShadowDecision (kind : ModelKind) (report : Registry.DecisionReport)
  | recordShadowOutcome (kind : ModelKind) (modelSucceeded fsmSucceeded : Bool)
  | promote (kind : ModelKind)

structure System (τ : Type*) where
  registry : Registry
  history : History
  task : τ → Task
  now : Instant

inductive Event (τ : Type*) where
  | tick (elapsed : Duration)
  | call (t : τ) (call : Call)
  | resume (t : τ)

namespace System
def start (keys : List Key) (now : Instant) : System τ :=
  ⟨{ Registry.new with trustedKeys := keys },.new,fun _ => .idle,now⟩

def become (s : System τ) (registry : Registry) (history : History) (t : τ) (task : Task) : System τ :=
  ⟨registry,history,update s.task t task,s.now⟩

/- The first section of a call only reads, and says what is left to do. -/
def begin (verifies : Key → Bytes → Signature → Bool) (s : System τ) : Call → Task
  | .loadArtifact kind version artifactBytes signature =>
    if verifyArtifactSignature verifies artifactBytes signature s.registry.trustedKeys = .valid then
      .inserting kind (Registry.loadedArtifact kind version signature s.now)
    else .idle
  | .recordShadowDecision kind report =>
    match s.registry.shadowVersion kind with
    | none => .idle
    | some version => .logging (s.history.current kind) (report.entry kind version)
  | .recordShadowOutcome kind modelSucceeded fsmSucceeded =>
    if (s.registry.shadowVersion kind).isSome then
      .observing ⟨s.history.current kind,modelSucceeded,fsmSucceeded⟩
    else .idle
  | .promote kind => .checking (s.history.current kind) (s.registry.models kind)

/- The next section of a call that has begun. -/
def resume (s : System τ) (t : τ) : System τ :=
  match s.task t with
  | .idle => s
  | .inserting kind artifact =>
    s.become (s.registry.insertArtifact kind artifact) (s.history.insert kind s.now) t (.resetting kind)
  | .resetting kind => s.become (s.registry.removeEvaluation kind) (s.history.reset kind) t .idle
  | .logging seen entry => s.become (s.registry.pushLog entry) s.history t (.counting seen)
  | .counting seen =>
    s.become (s.registry.countDecision seen.kind) (s.history.count seen) t .idle
  | .observing o =>
    s.become (s.registry.observeOutcome o.seen.kind o.modelSucceeded o.fsmSucceeded)
      (s.history.report o) t .idle
  | .checking seen artifact =>
    s.become s.registry s.history t (.assessing seen artifact (s.registry.evaluations seen.kind)
      (s.history.evidence seen.kind))
  | .assessing seen artifact evaluation outcomes =>
    s.become s.registry s.history t
      (if (readiness seen.kind artifact evaluation s.now).eligible then .promoting seen outcomes
      else .idle)
  | .promoting seen outcomes =>
    s.become (s.registry.writePromotion seen.kind s.now).1
      (if (s.registry.writePromotion seen.kind s.now).2 then s.history.promote seen.kind s.now outcomes
      else s.history) t .idle

/-- One section of one thread, or time passing; a thread begins a call when it has none. -/
def next (verifies : Key → Bytes → Signature → Bool) (s : System τ) : Event τ → System τ
  | .tick elapsed => { s with now := s.now+elapsed }
  | .call t call =>
    match s.task t with
    | .idle => s.become s.registry s.history t (s.begin verifies call)
    | _ => s
  | .resume t => s.resume t

end System

/-- A load inserts within the given lag of its clock reading, and promote looks at the elapsed time
of no artifact within that lag of its due time. The other calls write while the artifact that they
read is still loaded, and promote reads no evaluation that a load is about to remove. -/
def Undisturbed (lag : Duration) (s : System τ) : Event τ → Prop
  | .resume t =>
    match s.task t with
    | .inserting _ artifact => s.now ≤ artifact.loadedAt+lag
    | .counting seen => s.history.current seen.kind=seen
    | .observing o => s.history.current o.seen.kind = o.seen
    | .checking seen _ => ∀ u, s.task u ≠ .resetting seen.kind
    | .assessing _ (some artifact) _ _ => s.now < artifact.loadedAt+shadowMinDuration ∨
        artifact.loadedAt+shadowMinDuration+lag ≤ s.now
    | .promoting seen _ => s.history.current seen.kind=seen
    | _ => True
  | _ => True

section
variable (verifies : Key → Bytes → Signature → Bool) {s : System τ}

def Call.op (now : Instant) : Call → Op
  | .loadArtifact kind version artifactBytes signature =>
    .loadArtifact kind version artifactBytes signature now
  | .recordShadowDecision kind report => .recordShadowDecision kind report
  | .recordShadowOutcome kind modelSucceeded fsmSucceeded =>
    .recordShadowOutcome kind modelSucceeded fsmSucceeded
  | .promote kind => .promote kind now now

/- No call has more than three sections after its first, and a thread without a task does nothing. -/
def uninterrupted (t : τ) (call : Call) : List (Event τ) :=
  [.call t call,.resume t,.resume t,.resume t]

def System.Quiet (s : System τ) : Prop := ∀ u, s.task u = .idle

theorem System.Quiet.become (h : s.Quiet) (r : Registry) (hist : History) (t : τ) :
    (s.become r hist t .idle).Quiet := by
  intro u
  by_cases he : u=t
  · subst he
    simp [System.become]
  · simp [System.become,he,h u]

variable (r : Registry)

@[simp]
theorem become_become (r' : Registry) (hist hist' : History) (t : τ) (task task' : Task) :
    (s.become r hist t task).become r' hist' t task'=s.become r' hist' t task' := by
  simp [System.become]

variable (hist : History)

@[simp]
theorem become_task (t : τ) (task : Task) : (s.become r hist t task).task t=task := by
  simp [System.become]

@[simp]
theorem become_registry (t : τ) (task : Task) :
    (s.become r hist t task).registry=r := rfl

@[simp]
theorem become_history (t : τ) (task : Task) :
    (s.become r hist t task).history=hist := rfl

@[simp]
theorem become_now (t : τ) (task : Task) :
    (s.become r hist t task).now=s.now := rfl

theorem run_idle (t : τ) (n : Nat) :
    Run (Guarded (Undisturbed 0) (System.next verifies)) (s.become r hist t .idle)
      (replicate n (.resume t)) (s.become r hist t .idle) := by
  induction n with
  | zero => exact .refl _
  | succ n ih => exact .cons ⟨by simp [Undisturbed],by simp [System.next,System.resume]⟩ ih

theorem run_readiness (hquiet : s.Quiet) (t : τ) (kind : ModelKind) :
    Run (Guarded (Undisturbed 0) (System.next verifies))
      (s.become s.registry s.history t (s.begin verifies (.promote kind))) [.resume t,.resume t]
      (s.become s.registry s.history t
        (if (s.registry.promotionReadiness kind s.now).eligible then
          .promoting (s.history.current kind) (s.history.evidence kind)
        else .idle)) := by
  rw [System.begin]
  refine .cons ⟨?_,rfl⟩ (.cons ⟨?_,?_⟩ (.refl _))
  · have hnone : ∀ u, (s.become s.registry s.history t (.checking (s.history.current kind)
        (s.registry.models kind))).task u ≠ .resetting kind := by
      intro u
      by_cases he : u=t
      · subst he
        simp
      · simp [System.become,he,hquiet u]
    simpa [Undisturbed] using hnone
  · cases hmodel : s.registry.models kind with
    | none => simp [Undisturbed,System.next,System.resume]
    | some artifact => simpa [Undisturbed,System.next,System.resume] using Nat.lt_or_ge _ _
  · simp only [System.next,System.resume,become_task,become_become]
    rfl

/- The sections after the first, when no other thread is in a call. -/
theorem run_resume (hquiet : s.Quiet) (t : τ) (call : Call) :
    ∃ hist, Run (Guarded (Undisturbed 0) (System.next verifies))
      (s.become s.registry s.history t (s.begin verifies call)) (replicate 3 (.resume t))
      (s.become (s.registry.apply verifies (call.op s.now)) hist t .idle) := by
  cases call with
  | loadArtifact kind version artifactBytes signature =>
    rw [System.begin,Call.op,Registry.apply,Registry.loadArtifact]
    cases verifyArtifactSignature verifies artifactBytes signature s.registry.trustedKeys with
    | valid =>
      refine ⟨(s.history.insert kind s.now).reset kind,.cons ⟨?_,rfl⟩ (.cons ⟨?_,rfl⟩ ?_)⟩
      · simp [Undisturbed,Registry.loadedArtifact]
      · simp [Undisturbed,System.next,System.resume]
      · simpa [System.next,System.resume] using run_idle verifies _ _ t 1
    | invalid | missing | untrustedKey => exact ⟨s.history,run_idle verifies _ _ t 3⟩
  | recordShadowDecision kind report =>
    rw [System.begin,Call.op,Registry.apply,Registry.recordShadowDecision]
    cases s.registry.shadowVersion kind with
    | none => exact ⟨s.history,run_idle verifies _ _ t 3⟩
    | some version =>
      refine ⟨s.history.count (s.history.current kind),.cons ⟨?_,rfl⟩ (.cons ⟨?_,rfl⟩ ?_)⟩
      · simp [Undisturbed]
      · simp [Undisturbed,System.next,System.resume,History.current]
      · simpa [System.next,System.resume] using run_idle verifies _ _ t 1
  | recordShadowOutcome kind modelSucceeded fsmSucceeded =>
    rw [System.begin,Call.op,Registry.apply,Registry.recordShadowOutcome]
    split_ifs with hshadow
    · refine ⟨s.history.report ⟨s.history.current kind,modelSucceeded,fsmSucceeded⟩,
        .cons ⟨?_,rfl⟩ ?_⟩
      · simp [Undisturbed,History.current]
      · simpa [System.next,System.resume] using run_idle verifies _ _ t 2
    · exact ⟨s.history,run_idle verifies _ _ t 3⟩
  | promote kind =>
    rw [System.begin,Call.op,Registry.apply,Registry.promote]
    by_cases heligible : (s.registry.promotionReadiness kind s.now).eligible=true
    · have hread := run_readiness verifies hquiet t kind
      rw [if_pos heligible] at hread ⊢
      refine ⟨if (s.registry.writePromotion kind s.now).2 then
        s.history.promote kind s.now (s.history.evidence kind) else s.history,
        hread.append (.cons ⟨?_,?_⟩ (.refl _))⟩
      · simp [Undisturbed]
      · simp only [System.next,System.resume,become_task,become_become]
        rfl
    · have hread := run_readiness verifies hquiet t kind
      rw [if_neg heligible] at hread ⊢
      exact ⟨s.history,hread.append (run_idle verifies _ _ t 1)⟩

/-- A call that is not interrupted is undisturbed, and does what the sequential call does. -/
theorem run_uninterrupted (hquiet : s.Quiet) (t : τ) (call : Call) :
    ∃ s', Run (Guarded (Undisturbed 0) (System.next verifies)) s (uninterrupted t call) s' ∧
      s'.Quiet ∧ s'.now=s.now ∧ s'.registry=s.registry.apply verifies (call.op s.now) := by
  obtain ⟨hist,hrest⟩ := run_resume verifies hquiet t call
  refine ⟨_,.cons ⟨trivial,?_⟩ hrest,hquiet.become _ _ t,rfl,rfl⟩
  rw [System.next,hquiet t]

/- Calls one after the other are a run of the threads in which no call is disturbed. -/
theorem run_calls (t : τ) (calls : List Call) (hquiet : s.Quiet) :
    ∃ s', Run (Guarded (Undisturbed 0) (System.next verifies)) s (calls.flatMap (uninterrupted t)) s' ∧
      s'.Quiet ∧ s'.now=s.now ∧
      s'.registry=(calls.map (Call.op s.now)).foldl (Registry.apply verifies) s.registry := by
  induction calls generalizing s with
  | nil => exact ⟨s,.refl s,hquiet,rfl,rfl⟩
  | cons call calls ih =>
    obtain ⟨s₁,hcall,hquiet₁,hnow₁,hregistry₁⟩ := run_uninterrupted verifies hquiet t call
    obtain ⟨s₂,hcalls,hquiet₂,hnow₂,hregistry₂⟩ := ih hquiet₁
    refine ⟨s₂,hcall.append hcalls,hquiet₂,hnow₂.trans hnow₁,?_⟩
    rw [hregistry₂,hregistry₁,hnow₁,map_cons,foldl_cons]
end

section
variable {lag : Duration} {h h' : History} {now now' : Instant}

/- The past of an artifact grows and is not rewritten. -/
structure Extends (h h' : History) : Prop where
  loads : ∀ kind, h.loads kind ≤ h'.loads kind
  insertedAt : ∀ load, load.number ≤ h.loads load.kind → h'.insertedAt load=h.insertedAt load
  recorded : ∀ load, h.recorded load ≤ h'.recorded load

theorem Extends.of_same (hloads : h'.loads=h.loads) (hinserted : h'.insertedAt=h.insertedAt)
    (hrecorded : h'.recorded=h.recorded) : Extends h h' :=
  ⟨fun kind => Nat.le_of_eq (congrFun hloads.symm kind),fun load _ => congrFun hinserted load,
    fun load => Nat.le_of_eq (congrFun hrecorded.symm load)⟩

theorem Extends.refl (h : History) : Extends h h := .of_same rfl rfl rfl

/- An artifact that is loaded now was not loaded over in the meantime. -/
theorem Extends.current (hext : Extends h h') {seen : Load} (hseen : seen.number ≤ h.loads seen.kind)
    (hcurrent : h'.current seen.kind=seen) : h.current seen.kind=seen := by
  have hnumber : h'.loads seen.kind=seen.number := congrArg Load.number hcurrent
  have hloads := hext.loads seen.kind
  rw [History.current,Nat.le_antisymm (hnumber ▸ hloads) hseen]

theorem extends_insert (h : History) (kind : ModelKind) (now : Instant) :
    Extends h (h.insert kind now) := by
  refine ⟨fun other => ?_,fun load hload => ?_,fun _ => Nat.le_refl _⟩
  · by_cases he : other=kind
    · subst he
      simp [History.insert]
    · simp [History.insert,he]
  · refine update_of_ne ?_ _ _
    intro he
    rw [he] at hload
    exact Nat.not_succ_le_self _ hload

theorem extends_count (h : History) (seen : Load) : Extends h (h.count seen) := by
  refine ⟨fun _ => Nat.le_refl _,fun _ _ => rfl,fun load => ?_⟩
  by_cases he : load=seen
  · subst he
    simp [History.count]
  · simp [History.count,he]

/- The counters that the code checks are no larger than what happened to this artifact. -/
structure Evident (lag : Duration) (h : History) (load : Load) (artifact : ModelArtifact) : Prop where
  stamp : h.insertedAt load ≤ artifact.loadedAt+lag
  count : artifact.shadowDecisionCount.toNat ≤ h.recorded load

theorem Evident.extend {load : Load} {artifact : ModelArtifact} (he : Evident lag h load artifact)
    (hext : Extends h h') (hload : load.number ≤ h.loads load.kind) : Evident lag h' load artifact :=
  ⟨hext.insertedAt load hload ▸ he.stamp,Nat.le_trans he.count (hext.recorded load)⟩

theorem Promotion.Lawful.extend {load : Load} {outcomes : List Outcome}
    (hp : (h.promotion load now outcomes).Lawful) (hext : Extends h h') (hnow : now ≤ now')
    (hload : load.number ≤ h.loads load.kind) : (h'.promotion load now' outcomes).Lawful := by
  refine ⟨?_,Nat.le_trans hp.decisions (hext.recorded load),hp.quality,hp.outcomes⟩
  have hduration := Nat.le_trans hp.duration hnow
  rwa [History.promotion,← hext.insertedAt load hload] at hduration

/- A load inserts a fresh artifact. What promote has found out about the artifact that it read
   holds for as long as that is loaded. -/
def Grounded (lag : Duration) (h : History) (now : Instant) : Task → Prop
  | .inserting _ artifact => artifact.mode = .shadow ∧ artifact.shadowDecisionCount=0
  | .checking seen artifact => seen.number ≤ h.loads seen.kind ∧
      (h.current seen.kind=seen → ∀ a∈artifact, Evident lag h seen a)
  | .assessing seen artifact evaluation outcomes => seen.number ≤ h.loads seen.kind ∧
      (h.current seen.kind=seen → (∀ a∈artifact, Evident lag h seen a) ∧
        evaluation.getD .default=evaluationOf outcomes ∧ ∀ o∈outcomes, o.seen=seen)
  | .promoting seen outcomes => seen.number ≤ h.loads seen.kind ∧
      (h.current seen.kind=seen → (h.promotion seen now outcomes).Lawful)
  | _ => True

theorem Grounded.extend {task : Task} (hg : Grounded lag h now task) (hext : Extends h h')
    (hnow : now ≤ now') : Grounded lag h' now' task := by
  cases task with
  | checking seen artifact =>
    obtain ⟨hseen,hread⟩ := hg
    refine ⟨Nat.le_trans hseen (hext.loads _),fun hcurrent a ha => ?_⟩
    exact (hread (hext.current hseen hcurrent) a ha).extend hext hseen
  | assessing seen artifact evaluation outcomes =>
    obtain ⟨hseen,hread⟩ := hg
    refine ⟨Nat.le_trans hseen (hext.loads _),fun hcurrent => ?_⟩
    obtain ⟨hevident,hevaluation⟩ := hread (hext.current hseen hcurrent)
    exact ⟨fun a ha => (hevident a ha).extend hext hseen,hevaluation⟩
  | promoting seen outcomes =>
    obtain ⟨hseen,hlawful⟩ := hg
    exact ⟨Nat.le_trans hseen (hext.loads _),fun hcurrent =>
      (hlawful (hext.current hseen hcurrent)).extend hext hnow hseen⟩
  | inserting => exact hg
  | idle | resetting | logging | counting | observing => trivial
end

section
variable {lag : Duration} {s : System τ} {t : τ}

structure Sound (lag : Duration) (s : System τ) : Prop where
  artifacts : ∀ kind, ∀ a∈s.registry.models kind, Evident lag s.history (s.history.current kind) a
  evaluations : ∀ kind,
    (s.registry.evaluations kind).getD .default=evaluationOf (s.history.evidence kind)
  outcomes : ∀ kind, (∀ u, s.task u ≠ .resetting kind) →
    ∀ o∈s.history.evidence kind, o.seen=s.history.current kind
  tasks : ∀ u, Grounded lag s.history s.now (s.task u)
  promotions : ∀ p∈s.history.promotions, p.Lawful
  covered : ∀ kind, s.registry.modelMode kind=some .promoted →
    ∃ p∈s.history.promotions, p.load=s.history.current kind

omit [DecidableEq τ] in
theorem sound_start (lag : Duration) (keys : List Key) (now : Instant) :
    Sound lag (System.start keys now : System τ) where
  artifacts _ _ ha := nomatch ha
  evaluations _ := rfl
  outcomes _ _ _ ho := (not_mem_nil ho).elim
  tasks _ := trivial
  promotions _ hp := (not_mem_nil hp).elim
  covered _ hmode := nomatch hmode

omit [DecidableEq τ] in
theorem Sound.tick (h : Sound lag s) (elapsed : Duration) :
    Sound lag { s with now := s.now+elapsed } :=
  ⟨h.artifacts,h.evaluations,h.outcomes,
    fun u => (h.tasks u).extend (.refl _) (Nat.le_add_right _ _),h.promotions,h.covered⟩

omit [DecidableEq τ] in
theorem Sound.task (h : Sound lag s) {task : Task} (htask : s.task t=task) :
    Grounded lag s.history s.now task := by
  rw [← htask]
  exact h.tasks t

variable {hist : History} {kind : ModelKind} {seen : Load} {artifact : Option ModelArtifact}
  {evaluation : Option ShadowEvaluation} {outcomes : List Outcome}

omit [DecidableEq τ] in
/- The artifacts as they are before a section, when it loads nothing. -/
theorem Sound.artifacts_same (h : Sound lag s) (hext : Extends s.history hist)
    (hloads : hist.loads=s.history.loads) (kind : ModelKind) (a : ModelArtifact)
    (ha : a∈s.registry.models kind) : Evident lag hist (hist.current kind) a := by
  rw [History.current,hloads]
  exact (h.artifacts kind a ha).extend hext (Nat.le_refl _)

theorem Sound.tasks_become (h : Sound lag s) (r : Registry) {task : Task}
    (hext : Extends s.history hist) (hg : Grounded lag hist s.now task) (u : τ) :
    Grounded lag hist s.now ((s.become r hist t task).task u) := by
  by_cases he : u=t
  · subst he
    simpa [System.become] using hg
  · simpa [System.become,he] using (h.tasks u).extend hext (Nat.le_refl _)

/- A thread that was not about to remove an evaluation hides no other that is. -/
theorem resetting_of_become {r : Registry} {task : Task} (hold : s.task t ≠ .resetting kind)
    (h : ∀ u, (s.become r hist t task).task u ≠ .resetting kind) (u : τ) : s.task u ≠ .resetting kind := by
  by_cases he : u=t
  · exact he ▸ hold
  · simpa [System.become,he] using h u

/- A section that touches neither the models nor their evaluations. -/
theorem Sound.become_same (h : Sound lag s) {r : Registry} {task : Task}
    (hmodels : r.models=s.registry.models) (hevaluations : r.evaluations=s.registry.evaluations)
    (hold : ∀ kind, s.task t ≠ .resetting kind) (hg : Grounded lag s.history s.now task) :
    Sound lag (s.become r s.history t task) := by
  refine ⟨?_,?_,fun kind hnone => h.outcomes kind (resetting_of_become (hold kind) hnone),
    h.tasks_become r (.refl _) hg,h.promotions,?_⟩
  · intro kind
    simpa only [System.become,hmodels] using h.artifacts kind
  · intro kind
    simpa only [System.become,hevaluations] using h.evaluations kind
  · intro kind
    simpa only [System.become,Registry.modelMode,hmodels] using h.covered kind

theorem Sound.begin (h : Sound lag s) (hidle : s.task t = .idle)
    (verifies : Key → Bytes → Signature → Bool) (call : Call) :
    Sound lag (s.become s.registry s.history t (s.begin verifies call)) := by
  refine h.become_same rfl rfl (by simp [hidle]) ?_
  cases call with
  | loadArtifact kind version artifactBytes signature =>
    rw [System.begin]
    split_ifs
    · exact ⟨rfl,rfl⟩
    · trivial
  | recordShadowDecision kind report =>
    rw [System.begin]
    split <;> trivial
  | recordShadowOutcome kind modelSucceeded fsmSucceeded =>
    rw [System.begin]
    split_ifs <;> trivial
  | promote kind => exact ⟨Nat.le_refl _,fun _ => h.artifacts kind⟩

theorem current_insert (h : History) (kind kind' : ModelKind) (now : Instant) :
    (h.insert kind now).current kind' =
      if kind'=kind then ⟨kind,h.loads kind+1⟩ else h.current kind' := by
  rw [History.current,History.insert]
  dsimp only
  rw [update_apply]
  split_ifs with he
  · rw [he]
  · rfl

theorem Sound.inserting (h : Sound lag s) {artifact : ModelArtifact}
    (htask : s.task t = .inserting kind artifact) (hlag : s.now ≤ artifact.loadedAt+lag) :
    Sound lag (s.become (s.registry.insertArtifact kind artifact) (s.history.insert kind s.now) t
      (.resetting kind)) := by
  obtain ⟨hmode,hcount⟩ := h.task htask
  have hext := extends_insert s.history kind s.now
  have hother : ∀ other, other≠kind → (s.history.insert kind s.now).current other =
      s.history.current other := fun other hne => by rw [current_insert,if_neg hne]
  refine ⟨?_,h.evaluations,?_,h.tasks_become _ hext trivial,h.promotions,?_⟩
  · intro other a ha
    by_cases he : other=kind
    · subst he
      simp only [System.become,Registry.insertArtifact,update_self,Option.mem_some_iff] at ha
      subst ha
      simp only [System.become,current_insert,if_true]
      exact ⟨by simpa [History.insert] using hlag,by simp [hcount]⟩
    · simp only [System.become,Registry.insertArtifact,update_of_ne he] at ha
      simp only [System.become,hother other he]
      exact (h.artifacts other a ha).extend hext (Nat.le_refl _)
  · -- the kind that was loaded is about to be reset
    intro other hnone o ho
    have hne : other≠kind := by
      intro he
      subst he
      exact hnone t (by simp [System.become])
    simp only [System.become,hother other hne]
    exact h.outcomes other (resetting_of_become (by simp [htask]) hnone) o ho
  · intro other hpromoted
    simp only [System.become,Registry.modelMode,Registry.insertArtifact,modelMode_update] at hpromoted
    split_ifs at hpromoted with he
    · simp [hmode] at hpromoted
    · simp only [System.become,hother other he]
      exact h.covered other hpromoted

theorem Sound.resetting (h : Sound lag s) (htask : s.task t = .resetting kind) :
    Sound lag (s.become (s.registry.removeEvaluation kind) (s.history.reset kind) t .idle) := by
  have hext : Extends s.history (s.history.reset kind) := .of_same rfl rfl rfl
  refine ⟨h.artifacts_same hext rfl,?_,?_,h.tasks_become _ hext trivial,h.promotions,h.covered⟩
  · intro other
    by_cases he : other=kind
    · subst he
      simp [System.become,Registry.removeEvaluation,History.reset,evaluationOf]
    · simpa [System.become,Registry.removeEvaluation,History.reset,he] using h.evaluations other
  · intro other hnone o ho
    by_cases he : other=kind
    · subst he
      simp [System.become,History.reset] at ho
    · have hold : s.task t ≠ .resetting other := by
        rw [htask]
        intro hsame
        exact he (Task.resetting.inj hsame).symm
      simp only [System.become,History.reset,update_of_ne he] at ho
      exact h.outcomes other (resetting_of_become hold hnone) o ho

theorem saturatingSucc_toNat_le (n : UInt64) : (saturatingSucc n).toNat ≤ n.toNat+1 := by
  rw [saturatingSucc]
  split_ifs
  · exact Nat.le_succ _
  · rw [UInt64.toNat_add]
    exact Nat.mod_le _ _

theorem Sound.counting (h : Sound lag s) (htask : s.task t = .counting seen)
    (hcurrent : s.history.current seen.kind=seen) :
    Sound lag (s.become (s.registry.countDecision seen.kind) (s.history.count seen) t .idle) := by
  have hext := extends_count s.history seen
  refine ⟨?_,h.evaluations,?_,h.tasks_become _ hext trivial,h.promotions,?_⟩
  · intro kind a ha
    by_cases he : kind=seen.kind
    · subst he
      simp only [System.become,Registry.countDecision,update_self,Option.mem_def,
        Option.map_eq_some_iff] at ha
      obtain ⟨old,hold,rfl⟩ := ha
      obtain ⟨hstamp,hcount⟩ := h.artifacts seen.kind old hold
      rw [hcurrent] at hstamp hcount
      have hsame : (s.history.count seen).current seen.kind=seen := hcurrent
      simp only [System.become,hsame]
      refine ⟨hstamp,Nat.le_trans (saturatingSucc_toNat_le _) ?_⟩
      simpa [History.count] using hcount
    · simp only [System.become,Registry.countDecision,update_of_ne he] at ha
      exact h.artifacts_same hext rfl kind a ha
  · intro kind hnone
    exact h.outcomes kind (resetting_of_become (by simp [htask]) hnone)
  · intro kind hpromoted
    simp only [System.become,modelMode_countDecision] at hpromoted
    exact h.covered kind hpromoted

theorem evaluationOf_append (outcomes : List Outcome) (o : Outcome) : evaluationOf (outcomes++[o]) =
    (evaluationOf outcomes).observe o.modelSucceeded o.fsmSucceeded := by
  rw [evaluationOf,foldl_append]
  rfl

theorem Sound.observing (h : Sound lag s) {o : Outcome} (htask : s.task t = .observing o)
    (hcurrent : s.history.current o.seen.kind = o.seen) :
    Sound lag (s.become (s.registry.observeOutcome o.seen.kind o.modelSucceeded o.fsmSucceeded)
      (s.history.report o) t .idle) := by
  have hext : Extends s.history (s.history.report o) := .of_same rfl rfl rfl
  refine ⟨h.artifacts_same hext rfl,?_,?_,h.tasks_become _ hext trivial,h.promotions,h.covered⟩
  · intro kind
    by_cases he : kind = o.seen.kind
    · subst he
      simp only [System.become,Registry.observeOutcome,History.report,update_self,
        Option.getD_some,evaluationOf_append,h.evaluations]
    · simpa [System.become,Registry.observeOutcome,History.report,he] using h.evaluations kind
  · intro kind hnone other hother
    have hearlier := h.outcomes kind (resetting_of_become (by simp [htask]) hnone)
    by_cases he : kind = o.seen.kind
    · subst he
      simp only [System.become,History.report,update_self,mem_append,
        mem_singleton] at hother
      cases hother with
      | inl hold => exact hearlier other hold
      | inr hnew => exact hnew ▸ hcurrent.symm
    · simp only [System.become,History.report,update_of_ne he] at hother
      exact hearlier other hother

theorem Sound.checking (h : Sound lag s) (htask : s.task t = .checking seen artifact)
    (hnone : ∀ u, s.task u ≠ .resetting seen.kind) :
    Sound lag (s.become s.registry s.history t (.assessing seen artifact
      (s.registry.evaluations seen.kind) (s.history.evidence seen.kind))) := by
  have hread := h.task htask
  refine h.become_same rfl rfl (by simp [htask]) ⟨hread.1,fun hcurrent => ?_⟩
  refine ⟨hread.2 hcurrent,h.evaluations _,fun o ho => ?_⟩
  rw [h.outcomes seen.kind hnone o ho,hcurrent]

/- What the gate passed is true of the artifact, and not only of what was read about it. -/
theorem lawful_of_eligible {h : History} {now : Instant}
    (heligible : (readiness seen.kind artifact evaluation now).eligible=true)
    (hevident : ∀ a∈artifact, Evident lag h seen a)
    (hevaluation : evaluation.getD .default=evaluationOf outcomes)
    (houtcomes : ∀ o∈outcomes, o.seen=seen)
    (hlag : ∀ a∈artifact, now < a.loadedAt+shadowMinDuration ∨ a.loadedAt+shadowMinDuration+lag ≤ now) :
    (h.promotion seen now outcomes).Lawful := by
  cases artifact with
  | none => simp [readiness,PromotionReadiness.eligible] at heligible
  | some artifact =>
    simp only [readiness,PromotionReadiness.eligible,hevaluation,Bool.and_eq_true,
      decide_eq_true_eq] at heligible
    obtain ⟨⟨⟨-,-,hduration⟩,-,hcount⟩,-,hquality⟩ := heligible
    have hartifact := hevident artifact rfl
    refine ⟨?_,?_,hquality,houtcomes⟩
    · have hdue : artifact.loadedAt+shadowMinDuration+lag ≤ now := by
        have hpast : 0 < now-artifact.loadedAt := Nat.lt_of_lt_of_le (by decide) hduration
        have hloaded := Nat.le_of_lt (Nat.sub_pos_iff_lt.mp hpast)
        exact (hlag artifact rfl).resolve_left (Nat.not_lt.mpr (Nat.add_le_of_le_sub' hloaded hduration))
      calc h.insertedAt seen+shadowMinDuration
          ≤ artifact.loadedAt+lag+shadowMinDuration := Nat.add_le_add_right hartifact.stamp _
        _=artifact.loadedAt+shadowMinDuration+lag := Nat.add_right_comm _ _ _
        _ ≤ now := hdue
    · exact Nat.le_trans (UInt64.le_iff_toNat_le.mp hcount) hartifact.count

theorem Sound.assessing (h : Sound lag s)
    (htask : s.task t = .assessing seen artifact evaluation outcomes)
    (hlag : ∀ a∈artifact, s.now < a.loadedAt+shadowMinDuration ∨ a.loadedAt+shadowMinDuration+lag ≤ s.now) :
    Sound lag (s.become s.registry s.history t
      (if (readiness seen.kind artifact evaluation s.now).eligible then .promoting seen outcomes
      else .idle)) := by
  refine h.become_same rfl rfl (by simp [htask]) ?_
  have hread := h.task htask
  split_ifs with heligible
  · refine ⟨hread.1,fun hcurrent => ?_⟩
    obtain ⟨hevident,hevaluation,houtcomes⟩ := hread.2 hcurrent
    exact lawful_of_eligible heligible hevident hevaluation houtcomes hlag
  · trivial

theorem writePromotion_cases (r : Registry) (kind : ModelKind) (now : Instant) :
    r.writePromotion kind now=(r, false) ∨
      ∃ a, r.models kind=some a ∧ a.mode = .shadow ∧ (r.writePromotion kind now).2=true ∧
        (r.writePromotion kind now).1.evaluations=r.evaluations ∧
        (r.writePromotion kind now).1.models=update r.models kind
          (some { a with mode := .promoted, promotedAt := some now }) := by
  cases hmodel : r.models kind with
  | none => exact .inl (by rw [Registry.writePromotion,hmodel])
  | some a =>
    by_cases hmode : a.mode = .shadow
    · refine .inr ⟨a,rfl,hmode,?_⟩
      simp [Registry.writePromotion,hmodel,hmode]
    · exact .inl (by simp [Registry.writePromotion,hmodel,hmode])

theorem Sound.promoting (h : Sound lag s) (htask : s.task t = .promoting seen outcomes)
    (hcurrent : s.history.current seen.kind=seen) :
    Sound lag (s.become (s.registry.writePromotion seen.kind s.now).1
      (if (s.registry.writePromotion seen.kind s.now).2 then s.history.promote seen.kind s.now outcomes
      else s.history) t .idle) := by
  have hread := h.task htask
  cases writePromotion_cases s.registry seen.kind s.now with
  | inl hsame =>
    rw [hsame]
    exact h.become_same rfl rfl (by simp [htask]) trivial
  | inr hpromoted =>
    obtain ⟨artifact,hartifact,-,hwritten,hevaluations,hmodels⟩ := hpromoted
    rw [if_pos hwritten]
    have hext : Extends s.history (s.history.promote seen.kind s.now outcomes) := .of_same rfl rfl rfl
    refine ⟨?_,?_,fun kind hnone => h.outcomes kind (resetting_of_become (by simp [htask]) hnone),
      h.tasks_become _ hext trivial,?_,?_⟩
    · intro kind a ha
      simp only [System.become,hmodels] at ha
      by_cases he : kind=seen.kind
      · subst he
        rw [update_self,Option.mem_some_iff] at ha
        subst ha
        obtain ⟨hstamp,hcount⟩ := h.artifacts_same hext rfl seen.kind artifact hartifact
        exact ⟨hstamp,hcount⟩
      · rw [update_of_ne he] at ha
        exact h.artifacts_same hext rfl kind a ha
    · intro kind
      simpa only [System.become,hevaluations,History.promote] using h.evaluations kind
    · intro p hp
      simp only [System.become,History.promote,hcurrent,mem_append,mem_singleton] at hp
      cases hp with
      | inl hold => exact h.promotions p hold
      | inr hnew => exact hnew ▸ hread.2 hcurrent
    · intro kind hmode
      simp only [System.become,Registry.modelMode,hmodels,modelMode_update] at hmode
      split_ifs at hmode with he
      · refine ⟨_,mem_append_right _ (mem_singleton_self _),?_⟩
        rw [he]
        rfl
      · obtain ⟨p,hp,hload⟩ := h.covered kind hmode
        exact ⟨p,mem_append_left _ hp,hload⟩

theorem Sound.resume (h : Sound lag s) (hok : Undisturbed lag s (.resume t)) :
    Sound lag (s.resume t) := by
  rw [System.resume]
  rw [Undisturbed] at hok
  cases htask : s.task t with
  | idle => exact h
  | inserting kind artifact => exact h.inserting htask (by simpa only [htask] using hok)
  | resetting kind => exact h.resetting htask
  | logging seen entry => exact h.become_same rfl rfl (by simp [htask]) trivial
  | counting seen => exact h.counting htask (by simpa only [htask] using hok)
  | observing o => exact h.observing htask (by simpa only [htask] using hok)
  | checking seen artifact => exact h.checking htask (by simpa only [htask] using hok)
  | assessing seen artifact evaluation outcomes =>
    refine h.assessing htask fun a ha => ?_
    cases ha
    simpa only [htask] using hok
  | promoting seen outcomes => exact h.promoting htask (by simpa only [htask] using hok)

theorem Sound.next (h : Sound lag s) (verifies : Key → Bytes → Signature → Bool) {event : Event τ}
    (hok : Undisturbed lag s event) : Sound lag (s.next verifies event) := by
  cases event with
  | tick elapsed => exact h.tick elapsed
  | call t call =>
    rw [System.next]
    split
    next hidle => exact h.begin hidle verifies call
    next => exact h
  | resume t => exact h.resume hok

/-- In every interleaving in which no call is disturbed, each artifact that was promoted had itself
passed the gate, and each artifact in promoted mode is one of these. -/
theorem promoted_artifact_passed_gate (verifies : Key → Bytes → Signature → Bool) (lag : Duration)
    (keys : List Key) (now : Instant) (events : List (Event τ)) (s : System τ)
    (hrun : Run (Guarded (Undisturbed lag) (System.next verifies)) (.start keys now) events s) :
    (∀ p∈s.history.promotions, p.Lawful) ∧
      ∀ kind, s.registry.modelMode kind=some .promoted →
        ∃ p∈s.history.promotions, p.load=s.history.current kind := by
  have hsound : Sound lag s := by
    refine hrun.invariant (sound_start lag keys now) ?_
    intro s event s' hs hstep
    obtain ⟨hok,rfl⟩ := hstep
    exact hs.next verifies hok
  exact ⟨hsound.promotions,hsound.covered⟩
end

def loadCall : Call := .loadArtifact .adaptiveFallback "v1" signedBytes signature

def evidenceCalls : List Call :=
  replicate 10000 (.recordShadowDecision .adaptiveFallback report) ++
    replicate 1000 (.recordShadowOutcome .adaptiveFallback true false)

/- One thread loads an artifact and gathers all the evidence, and a week goes by. -/
def gathering : List (Event Bool) :=
  (loadCall::evidenceCalls).flatMap (uninterrupted false)++[.tick shadowMinDuration]

theorem map_evidenceCalls (now : Instant) : evidenceCalls.map (Call.op now)=evidence := by
  rw [evidenceCalls,map_append,map_replicate,map_replicate]
  rfl

theorem run_gathering : ∃ s : System Bool,
    Run (Guarded (Undisturbed 0) (System.next onlySignature)) (.start [signerKey] 0) gathering s ∧
      s.Quiet ∧ s.now=shadowMinDuration ∧ s.registry=gatheredOnce := by
  obtain ⟨s,hrun,hquiet,hnow,hregistry⟩ := run_calls onlySignature false (loadCall::evidenceCalls)
    (fun _ => rfl : (System.start [signerKey] 0 : System Bool).Quiet)
  refine ⟨{ s with now := s.now+shadowMinDuration },
    hrun.append (.cons ⟨trivial,rfl⟩ (.refl _)),hquiet,?_,?_⟩
  · rw [hnow]
    exact Nat.zero_add _
  · rw [hregistry,map_cons,map_evidenceCalls,foldl_cons]
    rfl

theorem eligible_gatheredOnce :
    (gatheredOnce.promotionReadiness .adaptiveFallback shadowMinDuration).eligible=true :=
  gathered_gatheredOnce.eligible (Nat.le_of_eq (Nat.zero_add _))

theorem promoted_artifact_passed_gate_once : ∃ s : System Bool,
    Run (Guarded (Undisturbed 0) (System.next onlySignature)) (.start [signerKey] 0)
      (gathering++uninterrupted false (.promote .adaptiveFallback)) s ∧
    s.registry.modelMode .adaptiveFallback=some .promoted ∧
    ∃ p∈s.history.promotions, p.load=s.history.current .adaptiveFallback ∧ p.Lawful := by
  obtain ⟨s₁,hgather,hquiet,hnow,hregistry⟩ := run_gathering
  obtain ⟨s₂,hpromote,-,-,hregistry₂⟩ :=
    run_uninterrupted onlySignature hquiet false (.promote .adaptiveFallback)
  have hrun := hgather.append hpromote
  have hmode : s₂.registry.modelMode .adaptiveFallback=some .promoted := by
    rw [hregistry₂,hregistry,hnow,Call.op,← promoteOnce,← promotedOnce]
    exact promotedAlone_promotedOnce.modelMode
  obtain ⟨hlawful,hcovered⟩ := promoted_artifact_passed_gate onlySignature 0 [signerKey] 0 _ s₂ hrun
  obtain ⟨p,hp,hload⟩ := hcovered .adaptiveFallback hmode
  exact ⟨s₂,hrun,hmode,p,hp,hload,hlawful p hp⟩

/- One thread has judged the evidence when another loads an artifact of the same kind. -/
def overtaking : List (Event Bool) :=
  [.call false (.promote .adaptiveFallback),.resume false,.resume false,.call true loadCall,
    .resume true,.resume false]

theorem next_loadCall {s : System Bool} {t : Bool} (hidle : s.task t = .idle)
    (hkeys : s.registry.trustedKeys=[signerKey]) :
    s.next onlySignature (.call t loadCall)=s.become s.registry s.history t (.inserting .adaptiveFallback
      (Registry.loadedArtifact .adaptiveFallback "v1" signature s.now)) := by
  rw [System.next,hidle]
  dsimp only
  rw [loadCall,System.begin,hkeys,if_pos onlySignature_valid]

/- The artifact that was just inserted is promoted. -/
theorem run_overtaking {s : System Bool} (hquiet : s.Quiet) (hkeys : s.registry.trustedKeys=[signerKey])
    (heligible : (s.registry.promotionReadiness .adaptiveFallback s.now).eligible=true) :
    ∃ s' p, Run (fun s event s' => s'=s.next onlySignature event) s overtaking s' ∧
      p∈s'.history.promotions ∧ p.insertedAt=p.promotedAt := by
  have hread := run_readiness onlySignature hquiet false .adaptiveFallback
  rw [if_pos heligible] at hread
  have hbegin : s.become s.registry s.history false (s.begin onlySignature (.promote .adaptiveFallback)) =
      s.next onlySignature (.call false (.promote .adaptiveFallback)) := by rw [System.next,hquiet]
  have hwrite (r : Registry) : ((r.insertArtifact .adaptiveFallback (Registry.loadedArtifact
      .adaptiveFallback "v1" signature s.now)).writePromotion .adaptiveFallback s.now).2=true := by
    simp [Registry.writePromotion,Registry.insertArtifact,Registry.loadedArtifact]
  refine ⟨_,(s.history.insert .adaptiveFallback s.now).promotion
    ((s.history.insert .adaptiveFallback s.now).current .adaptiveFallback) s.now
      (s.history.evidence .adaptiveFallback),
    .cons hbegin ((hread.mono fun _ _ _ hstep => hstep.2).append (run_foldl _ [_,_,_] _)),?_,?_⟩
  · rw [foldl_cons,next_loadCall]
    · simp [System.next,System.resume,System.become,hwrite,History.promote]
    · simp [System.become,hquiet true]
    · exact hkeys
  · simp [History.promotion,History.current,History.insert]

theorem fresh_artifact_promoted :
    ¬ ∀ (verifies : Key → Bytes → Signature → Bool) (keys : List Key) (now : Instant)
      (events : List (Event Bool)) (s : System Bool),
      Run (fun s event s' => s'=s.next verifies event) (.start keys now) events s →
        ∀ p∈s.history.promotions, p.Lawful := by
  intro hall
  obtain ⟨s,hgather,hquiet,hnow,hregistry⟩ := run_gathering
  obtain ⟨s',p,hovertake,hp,hsame⟩ := run_overtaking hquiet
    (by rw [hregistry]; exact gathered_gatheredOnce.keys)
    (by rw [hregistry,hnow]; exact eligible_gatheredOnce)
  have hrun := (hgather.mono fun _ _ _ hstep => hstep.2).append hovertake
  have hduration := (hall onlySignature [signerKey] 0 _ s' hrun p hp).duration
  rw [hsame] at hduration
  exact absurd hduration (Nat.not_le.mpr (Nat.lt_add_of_pos_right (by decide)))

end AetherX.RegistryThreads
