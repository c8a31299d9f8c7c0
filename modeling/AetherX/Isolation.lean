import Mathlib.Data.List.Induction
import AetherX.Machine

/-! The classifier of network isolation: probe failures raise the level one step at a time, a
success brings it back at once, and a healthy out-of-band interface holds it below the top. -/
namespace AetherX.Isolation
open Machine List

inductive IsolationLevel where
  | nominal
  | degraded
  | escalated
  | confirmedIsolation
  | totalIsolation
  deriving DecidableEq

def IsolationLevel.severity : IsolationLevel → Nat
  | .nominal => 0
  | .degraded => 1
  | .escalated => 2
  | .confirmedIsolation => 3
  | .totalIsolation => 4

instance : LT IsolationLevel := ⟨fun a b => a.severity < b.severity⟩

instance (a b : IsolationLevel) : Decidable (a < b) :=
  inferInstanceAs (Decidable (a.severity < b.severity))

structure IsolationCorrelator where
  level : IsolationLevel
  consecutiveFailures : Nat
  debounceThreshold : Nat
  outOfBandHealthy : Bool
  recoveryTriggered : Bool
  deriving DecidableEq

namespace IsolationCorrelator
def new (debounceThreshold : Nat) : IsolationCorrelator where
  level := .nominal
  consecutiveFailures := 0
  debounceThreshold := max debounceThreshold 1
  outOfBandHealthy := false
  recoveryTriggered := false

def setOutOfBandHealthy (c : IsolationCorrelator) (healthy : Bool) : IsolationCorrelator :=
  { c with outOfBandHealthy := healthy }

def advanceOneLevel (c : IsolationCorrelator) : IsolationCorrelator :=
  { c with
    level := match c.level with
      | .nominal => .degraded
      | .degraded => .escalated
      | .escalated => .confirmedIsolation
      | .confirmedIsolation => if c.outOfBandHealthy then .confirmedIsolation else .totalIsolation
      | .totalIsolation => .totalIsolation }

/- The failures that it takes to leave the level: one at the lowest. -/
def threshold (c : IsolationCorrelator) : Nat :=
  match c.level with
  | .nominal => 1
  | _ => c.debounceThreshold

def observeFailure (c : IsolationCorrelator) : IsolationCorrelator :=
  let counted := { c with consecutiveFailures := c.consecutiveFailures+1 }
  if counted.consecutiveFailures ≥ c.threshold then
    { counted.advanceOneLevel with consecutiveFailures := 0 }
  else counted

def observeSuccess (c : IsolationCorrelator) : IsolationCorrelator :=
  { c with
    recoveryTriggered := c.recoveryTriggered || decide (IsolationLevel.nominal < c.level)
    level := .nominal
    consecutiveFailures := 0 }

def takeRecoveryTriggered (c : IsolationCorrelator) : IsolationCorrelator × Bool :=
  ({ c with recoveryTriggered := false }, c.recoveryTriggered)

end IsolationCorrelator

inductive Call where
  | observeFailure
  | observeSuccess
  | setOutOfBandHealthy (healthy : Bool)
  | takeRecoveryTriggered

def IsolationCorrelator.apply (c : IsolationCorrelator) : Call → IsolationCorrelator
  | .observeFailure => c.observeFailure
  | .observeSuccess => c.observeSuccess
  | .setOutOfBandHealthy healthy => c.setOutOfBandHealthy healthy
  | .takeRecoveryTriggered => c.takeRecoveryTriggered.1

section
variable {c : IsolationCorrelator}

theorem observeFailure_cases (c : IsolationCorrelator) :
    (c.consecutiveFailures+1 < c.threshold ∧
      c.observeFailure={ c with consecutiveFailures := c.consecutiveFailures+1 }) ∨
    (c.threshold ≤ c.consecutiveFailures+1 ∧
      c.observeFailure={ c.advanceOneLevel with consecutiveFailures := 0 }) := by
  by_cases h : c.threshold ≤ c.consecutiveFailures+1
  · exact Or.inr ⟨h,if_pos h⟩
  · exact Or.inl ⟨Nat.lt_of_not_le h,if_neg h⟩

def NoUplink (c : IsolationCorrelator) : Prop :=
  c.level = .totalIsolation → c.outOfBandHealthy=false

theorem NoUplink.advance (h : NoUplink c) : NoUplink c.advanceOneLevel := by
  cases hlevel : c.level with
  | confirmedIsolation =>
    cases hhealthy : c.outOfBandHealthy <;>
      simp [NoUplink,IsolationCorrelator.advanceOneLevel,hlevel,hhealthy]
  | totalIsolation => exact fun _ => h hlevel
  | _ => simp [NoUplink,IsolationCorrelator.advanceOneLevel,hlevel]

theorem noUplink_apply_iff (h : NoUplink c) (call : Call) :
    NoUplink (c.apply call) ↔ (call = .setOutOfBandHealthy true → c.level ≠ .totalIsolation) := by
  cases call with
  | observeFailure =>
    refine iff_of_true ?_ nofun
    rcases observeFailure_cases c with ⟨_,heq⟩ | ⟨_,heq⟩
    · simp only [IsolationCorrelator.apply,heq]
      exact h
    · simp only [IsolationCorrelator.apply,heq]
      exact h.advance
  | observeSuccess => exact iff_of_true nofun nofun
  | setOutOfBandHealthy healthy =>
    cases healthy with
    | true => simp [NoUplink,IsolationCorrelator.apply,IsolationCorrelator.setOutOfBandHealthy]
    | false => exact iff_of_true (fun _ => rfl) nofun
  | takeRecoveryTriggered => exact iff_of_true h nofun
end

/-- The level is the top one only without an uplink, all along a run, exactly when no interface
is reported healthy while the level is the top one. -/
theorem noUplink_along_iff (debounceThreshold : Nat) (calls : List Call) :
    (∀ before after, calls=before++after →
      NoUplink (before.foldl IsolationCorrelator.apply (.new debounceThreshold))) ↔
    ∀ before call after, calls=before++call::after → call = .setOutOfBandHealthy true →
      (before.foldl IsolationCorrelator.apply (.new debounceThreshold)).level ≠ .totalIsolation := by
  have hnew : NoUplink (.new debounceThreshold) := nofun
  have hstep : ∀ (c : IsolationCorrelator) (call : Call), True → NoUplink c →
      (NoUplink (c.apply call) ↔
        (call = .setOutOfBandHealthy true → c.level ≠ .totalIsolation)) :=
    fun _ call _ h => noUplink_apply_iff h call
  exact foldl_along_iff (fun _ => True) (fun _ _ _ => trivial) hstep calls trivial hnew

theorem healthy_at_total_isolation :
    let c := [.observeFailure,.observeFailure,.observeFailure,.observeFailure,
      .setOutOfBandHealthy true].foldl IsolationCorrelator.apply (.new 1)
    c.level = .totalIsolation ∧ c.outOfBandHealthy=true := by
  decide

def countFailure (n : Nat) : Call → Nat
  | .observeFailure => n+1
  | .observeSuccess => 0
  | _ => n

def failuresSince (calls : List Call) : Nat := calls.foldl countFailure 0

section
def topSeverity (healthy : Bool) : Nat := if healthy then 3 else 4

def severityAfter (top d k : Nat) : Nat := if k=0 then 0 else min top (1+(k-1)/d)

theorem div_mod_succ {d : Nat} (hd : 1 ≤ d) (j : Nat) :
    (j%d+1 < d → (j+1)/d=j/d ∧ (j+1)%d=j%d+1) ∧
    (d ≤ j%d+1 → (j+1)/d=j/d+1 ∧ (j+1)%d=0) := by
  have hsplit := Nat.mod_add_div j d
  have hmod := Nat.mod_lt j hd
  constructor
  · intro hlt
    rw [Nat.div_mod_unique hd]
    omega
  · intro hge
    rw [Nat.div_mod_unique hd,Nat.mul_succ]
    omega

/- What the state is after `k` failures in a row, with the flag as given all the time. -/
structure AfterFailures (d : Nat) (healthy : Bool) (k : Nat) (c : IsolationCorrelator) : Prop where
  threshold : c.debounceThreshold=d
  flag : c.outOfBandHealthy=healthy
  severity : c.level.severity=severityAfter (topSeverity healthy) d k
  count : c.consecutiveFailures=(k-1)%d

variable {d k : Nat} {healthy : Bool} {c : IsolationCorrelator}

theorem severity_advanceOneLevel (h : c.level.severity ≤ topSeverity c.outOfBandHealthy) :
    c.advanceOneLevel.level.severity =
      min (topSeverity c.outOfBandHealthy) (c.level.severity+1) := by
  revert h
  cases hlevel : c.level <;> cases hflag : c.outOfBandHealthy <;>
    simp [IsolationCorrelator.advanceOneLevel,IsolationLevel.severity,topSeverity,hlevel,hflag]

theorem severity_eq_zero_iff (level : IsolationLevel) : level.severity=0 ↔ level = .nominal := by
  cases level <;> decide

theorem severityAfter_le (top d k : Nat) : severityAfter top d k ≤ top := by
  rw [severityAfter]
  split_ifs
  · exact Nat.zero_le top
  · exact Nat.min_le_left _ _

theorem severityAfter_eq_zero_iff (healthy : Bool) :
    severityAfter (topSeverity healthy) d k=0 ↔ k=0 := by
  rw [severityAfter]
  split_ifs with hk
  · exact iff_of_true rfl hk
  · cases healthy <;> simp [topSeverity,hk]

theorem AfterFailures.nominal_iff (h : AfterFailures d healthy k c) :
    c.level = .nominal ↔ k=0 := by
  rw [← severity_eq_zero_iff,h.severity,severityAfter_eq_zero_iff]

theorem AfterFailures.threshold_eq (h : AfterFailures d healthy k c) :
    c.threshold=if k=0 then 1 else d := by
  have hnominal := h.nominal_iff
  rw [IsolationCorrelator.threshold]
  split_ifs with hk
  · rw [hnominal.mpr hk]
  · have hlevel : c.level ≠ .nominal := fun hlevel => hk (hnominal.mp hlevel)
    rw [← h.threshold]
    cases hcase : c.level with
    | nominal => exact absurd hcase hlevel
    | _ => rfl

theorem AfterFailures.advance (h : AfterFailures d healthy k c) :
    c.advanceOneLevel.level.severity =
      min (topSeverity healthy) (severityAfter (topSeverity healthy) d k+1) := by
  have hle : c.level.severity ≤ topSeverity c.outOfBandHealthy := by
    rw [h.severity,h.flag]
    exact severityAfter_le _ _ _
  rw [severity_advanceOneLevel hle,h.severity,h.flag]

/-- One more failure: it is counted, or it completes a full threshold and the level goes up. -/
theorem AfterFailures.failure (hd : 1 ≤ d) (h : AfterFailures d healthy k c) :
    AfterFailures d healthy (k+1) c.observeFailure := by
  have hthreshold := h.threshold_eq
  have hadvance := h.advance
  have hcount := h.count
  cases k with
  | zero =>
    rcases observeFailure_cases c with ⟨hlt,heq⟩ | ⟨_,heq⟩
    · rw [hthreshold,if_pos rfl] at hlt
      omega
    · rw [heq]
      refine ⟨h.threshold,h.flag,hadvance.trans ?_,by simp⟩
      simp [severityAfter]
  | succ j =>
    rw [if_neg (Nat.succ_ne_zero j)] at hthreshold
    rw [Nat.add_sub_cancel] at hcount
    obtain ⟨hstay,hstep⟩ := div_mod_succ hd j
    rcases observeFailure_cases c with ⟨hlt,heq⟩ | ⟨hge,heq⟩
    · rw [hthreshold,hcount] at hlt
      obtain ⟨hdiv,hmod⟩ := hstay hlt
      rw [heq]
      refine ⟨h.threshold,h.flag,h.severity.trans ?_,?_⟩
      · simp [severityAfter,hdiv]
      · simp [hcount,hmod]
    · rw [hthreshold,hcount] at hge
      obtain ⟨hdiv,hmod⟩ := hstep hge
      rw [heq]
      refine ⟨h.threshold,h.flag,hadvance.trans ?_,?_⟩
      · simp only [severityAfter,Nat.succ_ne_zero,if_false,Nat.add_sub_cancel,hdiv]
        omega
      · simp [hmod]

theorem AfterFailures.apply (hd : 1 ≤ d) (h : AfterFailures d healthy k c) {call : Call}
    (hcall : call ≠ .setOutOfBandHealthy !healthy) :
    AfterFailures d healthy (countFailure k call) (c.apply call) := by
  cases call with
  | observeFailure => exact h.failure hd
  | observeSuccess => exact ⟨h.threshold,h.flag,rfl,(Nat.zero_mod d).symm⟩
  | setOutOfBandHealthy flag =>
    have hflag : flag=healthy := by
      cases flag <;> cases healthy <;> simp_all
    exact ⟨h.threshold,hflag,h.severity,h.count⟩
  | takeRecoveryTriggered => exact ⟨h.threshold,h.flag,h.severity,h.count⟩

theorem afterFailures_run (hd : 1 ≤ d) (h : AfterFailures d healthy k c) (calls : List Call)
    (hcalls : ∀ call∈calls, call ≠ .setOutOfBandHealthy !healthy) :
    AfterFailures d healthy (calls.foldl countFailure k)
      (calls.foldl IsolationCorrelator.apply c) := by
  induction calls generalizing k c with
  | nil => exact h
  | cons call calls ih =>
    rw [forall_mem_cons] at hcalls
    exact ih (h.apply hd hcalls.1) hcalls.2

theorem afterFailures_start (debounceThreshold : Nat) (healthy : Bool) :
    AfterFailures (max debounceThreshold 1) healthy 0
      ((IsolationCorrelator.new debounceThreshold).setOutOfBandHealthy healthy) :=
  ⟨rfl,rfl,rfl,(Nat.zero_mod _).symm⟩

def Recovered (calls : List Call) : Prop :=
  ∃ earlier later, calls=earlier ++ .observeSuccess::later ∧
    .takeRecoveryTriggered∉later ∧ 0 < failuresSince earlier

theorem failuresSince_concat (calls : List Call) (call : Call) :
    failuresSince (calls++[call])=countFailure (failuresSince calls) call := by
  rw [failuresSince,foldl_append]
  rfl

theorem recovered_concat_iff (calls : List Call) (call : Call) :
    Recovered (calls++[call]) ↔ (call = .observeSuccess ∧ 0 < failuresSince calls) ∨
      (call ≠ .takeRecoveryTriggered ∧ Recovered calls) := by
  constructor
  · intro h
    obtain ⟨earlier,later,heq,htaken,hrun⟩ := h
    induction later using reverseRecOn with
    | nil =>
      obtain ⟨hcalls,hcall⟩ := append_inj' heq rfl
      exact Or.inl ⟨singleton_inj.mp hcall,hcalls ▸ hrun⟩
    | append_singleton later last _ =>
      rw [← cons_append,← append_assoc] at heq
      obtain ⟨hcalls,hcall⟩ := append_inj' heq rfl
      rw [mem_append,not_or] at htaken
      have hlast : call=last := singleton_inj.mp hcall
      refine Or.inr ⟨fun htake => ?_,earlier,later,hcalls,htaken.1,hrun⟩
      exact htaken.2 (mem_singleton.mpr (htake ▸ hlast))
  · intro h
    rcases h with ⟨rfl,hrun⟩ | ⟨hcall,earlier,later,rfl,htaken,hrun⟩
    · exact ⟨calls,[],rfl,not_mem_nil,hrun⟩
    · refine ⟨earlier,later++[call],by simp,?_,hrun⟩
      rw [mem_append,not_or,mem_singleton]
      exact ⟨htaken,Ne.symm hcall⟩

theorem observeFailure_ne_nominal (c : IsolationCorrelator) :
    c.observeFailure.level ≠ .nominal := by
  rcases observeFailure_cases c with ⟨hlt,heq⟩ | ⟨_,heq⟩
  · -- at the lowest level the first failure is never only counted
    intro hlevel
    rw [heq] at hlevel
    have hone : c.threshold=1 := by
      rw [IsolationCorrelator.threshold,show c.level = .nominal from hlevel]
    omega
  · rw [heq]
    cases hlevel : c.level <;> cases hflag : c.outOfBandHealthy <;>
      simp [IsolationCorrelator.advanceOneLevel,hlevel,hflag]

theorem nominal_run_iff (debounceThreshold : Nat) (calls : List Call) :
    (calls.foldl IsolationCorrelator.apply (.new debounceThreshold)).level = .nominal ↔
      failuresSince calls=0 := by
  induction calls using reverseRecOn with
  | nil => exact iff_of_true rfl rfl
  | append_singleton calls call ih =>
    rw [foldl_append,failuresSince_concat]
    cases call with
    | observeFailure =>
      exact iff_of_false (observeFailure_ne_nominal _) (Nat.succ_ne_zero _)
    | observeSuccess => exact iff_of_true rfl rfl
    | setOutOfBandHealthy flag => exact ih
    | takeRecoveryTriggered => exact ih

theorem nominal_lt_iff (level : IsolationLevel) :
    IsolationLevel.nominal < level ↔ level ≠ .nominal := by
  cases level <;> decide

/-- A recovery is pending exactly when some success since the last take ended a run of
failures. -/
theorem recoveryTriggered_run_iff (debounceThreshold : Nat) (calls : List Call) :
    (calls.foldl IsolationCorrelator.apply (.new debounceThreshold)).recoveryTriggered=true ↔
      Recovered calls := by
  induction calls using reverseRecOn with
  | nil =>
    refine iff_of_false Bool.false_ne_true ?_
    rintro ⟨earlier,later,heq,_⟩
    simp at heq
  | append_singleton calls call ih =>
    have hnominal := nominal_run_iff debounceThreshold calls
    rw [foldl_append,recovered_concat_iff,← ih]
    generalize calls.foldl IsolationCorrelator.apply (.new debounceThreshold)=c at hnominal ⊢
    cases call with
    | observeFailure =>
      have hkeep : c.observeFailure.recoveryTriggered=c.recoveryTriggered := by
        rcases observeFailure_cases c with ⟨_,heq⟩ | ⟨_,heq⟩
        · rw [heq]
        · rw [heq]
          rfl
      simp [IsolationCorrelator.apply,hkeep]
    | observeSuccess =>
      simp [IsolationCorrelator.apply,IsolationCorrelator.observeSuccess,nominal_lt_iff,hnominal,
        Nat.pos_iff_ne_zero,or_comm]
    | setOutOfBandHealthy flag =>
      simp [IsolationCorrelator.apply,IsolationCorrelator.setOutOfBandHealthy]
    | takeRecoveryTriggered =>
      simp [IsolationCorrelator.apply,IsolationCorrelator.takeRecoveryTriggered]

/-- The level in closed form, with the flag unhealthy and with it healthy all the time, and when
a recovery is reported. -/
theorem isolation_closed_form (debounceThreshold : Nat) (calls : List Call) :
    ((∀ call∈calls, call ≠ .setOutOfBandHealthy true) →
      (calls.foldl IsolationCorrelator.apply (.new debounceThreshold)).level.severity =
        severityAfter 4 (max debounceThreshold 1) (failuresSince calls)) ∧
    ((∀ call∈calls, call ≠ .setOutOfBandHealthy false) →
      (calls.foldl IsolationCorrelator.apply
        ((IsolationCorrelator.new debounceThreshold).setOutOfBandHealthy true)).level.severity =
        severityAfter 3 (max debounceThreshold 1) (failuresSince calls)) ∧
    ((calls.foldl IsolationCorrelator.apply (.new debounceThreshold)).takeRecoveryTriggered.2 =
      true ↔ Recovered calls) := by
  have hd : 1 ≤ max debounceThreshold 1 := Nat.le_max_right _ _
  refine ⟨fun hcalls => ?_,fun hcalls => ?_,recoveryTriggered_run_iff debounceThreshold calls⟩
  · exact (afterFailures_run hd (afterFailures_start debounceThreshold false) calls hcalls).severity
  · exact (afterFailures_run hd (afterFailures_start debounceThreshold true) calls hcalls).severity

theorem isolation_closed_form_three_failures :
    ([.observeFailure,.observeFailure,.observeFailure].foldl IsolationCorrelator.apply
      (.new 2)).level.severity=2 :=
  (isolation_closed_form 2 [.observeFailure,.observeFailure,.observeFailure]).1 (by simp)
end

end AetherX.Isolation
