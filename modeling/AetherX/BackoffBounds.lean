import AetherX.Cadence

/-! How long a failure keeps a transport waiting, over every history of the governor: the
delay is set by the failures since the last success and by the level, up to a quarter. -/
namespace AetherX.Cadence
open Isolation
open Supervisor (Instant Duration fromSecs)

/- The calls that change the governor, each some time after the one before. -/
inductive Operation where
  | setLevel (level : IsolationLevel)
  | tryProbe (transport : String)
  | noteFailure (transport : String)
  | noteSuccess (transport : String)
  | forceDue (transport : String)
  | forceAllDue

structure Timed where
  wait : Duration
  operation : Operation

def ProbeCadence.perform (c : ProbeCadence) (now : Instant) : Operation → ProbeCadence
  | .setLevel level => c.setLevel level now
  | .tryProbe transport => (c.tryProbe transport now).1
  | .noteFailure transport => c.noteFailure transport now
  | .noteSuccess transport => c.noteSuccess transport now
  | .forceDue transport => c.forceDue transport now
  | .forceAllDue => c.forceAllDue now

structure Session where
  cadence : ProbeCadence
  clock : Instant

namespace Session
def start (seed : UInt64) (clock : Instant) : Session := ⟨.withSeed seed,clock⟩

def step (s : Session) (e : Timed) : Session :=
  ⟨s.cadence.perform (s.clock+e.wait) e.operation,s.clock+e.wait⟩

def run (seed : UInt64) (clock : Instant) (history : List Timed) : Session :=
  history.foldl step (.start seed clock)

def remaining (s : Session) (transport : String) : Duration :=
  s.cadence.timeUntilDue transport s.clock

end Session

/- The failures of a transport since its last success, counted without a bound. -/
def countFailure (transport : String) (failures : Nat) (e : Timed) : Nat :=
  match e.operation with
  | .noteFailure failed => if failed=transport then failures+1 else failures
  | .noteSuccess reached => if reached=transport then 0 else failures
  | _ => failures

def failuresSince (transport : String) (history : List Timed) : Nat :=
  history.foldl (countFailure transport) 0

/- The delay that a failure asks for before jitter. -/
def plannedInterval (level : IsolationLevel) (failures : Nat) : Duration :=
  min maxInterval (max (baseIntervalFor level) (fromMillis 500*2^min failures 8))

section
variable (c : ProbeCadence) (transport other : String) (now : Instant)

@[simp] theorem entry_consecutiveFailures :
    (c.entry transport now).consecutiveFailures=c.failureCount transport := by
  cases h : c.transports transport with
  | none => simp [ProbeCadence.entry,ProbeCadence.failureCount,h,TransportState.new]
  | some st => simp [ProbeCadence.entry,ProbeCadence.failureCount,h]

theorem failureCount_update (st : TransportState) {c' : ProbeCadence}
    (h : c'.transports=Function.update c.transports other (some st)) :
    c'.failureCount transport =
      if other=transport then st.consecutiveFailures else c.failureCount transport := by
  by_cases hsame : other=transport
  · subst hsame
    simp [ProbeCadence.failureCount,h]
  · simp [ProbeCadence.failureCount,h,hsame,Function.update_of_ne (Ne.symm hsame)]

theorem failureCount_map (due : TransportState → Instant) {c' : ProbeCadence}
    (h : c'.transports=fun name => (c.transports name).map fun st =>
      { st with nextDue := due st }) :
    c'.failureCount transport=c.failureCount transport := by
  cases hst : c.transports transport <;> simp [ProbeCadence.failureCount,h,hst]

theorem failureCount_setLevel (level : IsolationLevel) :
    (c.setLevel level now).failureCount transport=c.failureCount transport := by
  rw [ProbeCadence.setLevel]
  split
  · exact failureCount_map _ _ _ rfl
  · rfl

theorem failureCount_tryProbe :
    (c.tryProbe other now).1.failureCount transport=c.failureCount transport := by
  have hsame : (c.entry other now).consecutiveFailures=c.failureCount other :=
    entry_consecutiveFailures c other now
  rw [ProbeCadence.tryProbe]
  split
  all_goals
    refine (failureCount_update c transport other _ rfl).trans ?_
    split
    · next h => rw [← h,← hsame]
    · rfl

theorem saturate_succ (n : Nat) : saturate 32 (saturate 32 n+1)=saturate 32 (n+1) := by
  simp only [saturate]
  omega

/-- The governor's counter is the number of failures since the last success, up to the largest
number it can hold. -/
theorem failureCount_step {s : Session} {failures : Nat}
    (h : s.cadence.failureCount transport=saturate 32 failures) (e : Timed) :
    (s.step e).cadence.failureCount transport =
      saturate 32 (countFailure transport failures e) := by
  rw [Session.step,countFailure]
  cases e.operation with
  | setLevel level => exact (failureCount_setLevel ..).trans h
  | tryProbe asked => exact (failureCount_tryProbe ..).trans h
  | noteFailure failed =>
    refine (failureCount_update s.cadence transport failed _ rfl).trans ?_
    by_cases hsame : failed=transport
    · simp [hsame,h,saturate_succ]
    · simpa [hsame] using h
  | noteSuccess reached =>
    refine (failureCount_update s.cadence transport reached _ rfl).trans ?_
    by_cases hsame : reached=transport
    · simp [hsame,saturate]
    · simpa [hsame] using h
  | forceDue forced =>
    refine (failureCount_update s.cadence transport forced _ rfl).trans ?_
    by_cases hsame : forced=transport
    · simp [hsame,h]
    · simpa [hsame] using h
  | forceAllDue => exact (failureCount_map _ _ _ rfl).trans h

theorem failureCount_foldl (history : List Timed) {s : Session} {failures : Nat}
    (h : s.cadence.failureCount transport=saturate 32 failures) :
    (history.foldl Session.step s).cadence.failureCount transport =
      saturate 32 (history.foldl (countFailure transport) failures) := by
  induction history generalizing s failures with
  | nil => exact h
  | cons e history ih => exact ih (failureCount_step transport h e)

theorem failureCount_run (seed : UInt64) (clock : Instant) (history : List Timed) :
    (Session.run seed clock history).cadence.failureCount transport =
      saturate 32 (failuresSince transport history) :=
  failureCount_foldl transport history rfl
end

section
variable (level : IsolationLevel)

variable (failures : Nat)

/-- The power is far too small to saturate and its product too small to overflow. -/
theorem backoff_eq : ProbeCadence.backoff level failures=plannedInterval level failures := by
  have hpower : 2^min failures 8≤2^8 :=
    Nat.pow_le_pow_right (by decide) (min_le_right _ _)
  have hsaturate : saturate 32 (backoffFactor^min failures maxBackoffShift) =
      2^min failures 8 := Nat.min_eq_left (hpower.trans (by decide))
  have hfits : floorInterval*2^min failures 8 < fromSecs (2^64) :=
    lt_of_le_of_lt (Nat.mul_le_mul_left _ hpower) (by decide)
  rw [ProbeCadence.backoff,hsaturate,checkedMul,if_pos hfits,min_comm,max_comm]
  rfl

theorem plannedInterval_saturate :
    plannedInterval level (saturate 32 failures)=plannedInterval level failures := by
  have hshift : min (saturate 32 failures) 8=min failures 8 := by
    simp only [saturate]
    omega
  rw [plannedInterval,hshift,plannedInterval]

theorem plannedInterval_le : plannedInterval level failures ≤ maxInterval :=
  min_le_left _ _

/- Planned delays are whole tenths of a second, so that a quarter of one is a whole number of
   milliseconds. -/
theorem plannedInterval_eq :
    ∃ tenths, 0 < tenths ∧ plannedInterval level failures=fromMillis (100*tenths) := by
  have hbase : ∃ tenths, 0 < tenths ∧ baseIntervalFor level=fromMillis (100*tenths) := by
    cases level with
    | nominal => exact ⟨5,by decide,rfl⟩
    | degraded => exact ⟨5,by decide,rfl⟩
    | escalated => exact ⟨50,by decide,rfl⟩
    | confirmedIsolation => exact ⟨300,by decide,rfl⟩
    | totalIsolation => exact ⟨600,by decide,rfl⟩
  obtain ⟨base,hpos,hbase⟩ := hbase
  refine ⟨min 3000 (max base (5*2^min failures 8)),by omega,?_⟩
  rw [plannedInterval,hbase]
  simp only [maxInterval,fromSecs,fromMillis]
  change @Eq Nat _ _
  omega

theorem floorInterval_le_plannedInterval : floorInterval ≤ plannedInterval .nominal failures :=
  le_min (by decide) (le_max_left _ _)

theorem jitter_planned (seed : UInt64) (transport : String) :
    3*plannedInterval level failures/4 ≤
        jitter (plannedInterval level failures) seed transport ∧
      jitter (plannedInterval level failures) seed transport ≤
        min (5*plannedInterval level failures/4) maxInterval := by
  have hmax := plannedInterval_le level failures
  obtain ⟨tenths,hpos,hplanned⟩ := plannedInterval_eq level failures
  have hlow := le_jitter hplanned.ge hmax seed transport
  have hhigh := jitter_le hpos hplanned.le hmax seed transport
  refine ⟨Nat.le_trans ?_ hlow,le_min (Nat.le_trans hhigh ?_) (jitter_le_maxInterval ..)⟩
  · rw [hplanned,fromMillis,fromMillis]
    omega
  · rw [hplanned,fromMillis,fromMillis]
    omega

/-- At the nominal level each of the first eight failures at least doubles the delay. -/
theorem two_mul_plannedInterval_le {failures more : Nat} (hlt : failures < more)
    (hmore : more≤8) :
    2*plannedInterval .nominal failures ≤ plannedInterval .nominal more := by
  have hdouble : 2*2^failures≤2^more := by
    rw [← Nat.pow_succ']
    exact Nat.pow_le_pow_right (by decide) hlt
  have hone : 1≤2^failures := Nat.one_le_two_pow
  have hcap : 2^more≤2^8 := Nat.pow_le_pow_right (by decide) hmore
  simp only [plannedInterval,Nat.min_eq_left hmore,Nat.min_eq_left (hlt.le.trans hmore),
    baseIntervalFor,floorInterval,maxInterval,fromSecs,fromMillis]
  change @LE.le Nat _ _ _
  omega

theorem lt_of_quarters {earlier later planned longer : Nat} (hpos : 4 ≤ planned)
    (hdouble : 2*planned ≤ longer) (hearlier : earlier≤5*planned/4)
    (hlater : 3*longer/4 ≤ later) : earlier < later := by
  omega

/-- What a failure leaves: the jittered delay of its count and of the level. -/
theorem remaining_noteFailure (seed : UInt64) (clock : Instant) (transport : String)
    (history : List Timed) (wait : Duration) : ∃ drawn,
      (Session.run seed clock (history++[⟨wait,.noteFailure transport⟩])).remaining transport =
        jitter (plannedInterval
          (Session.run seed clock (history++[⟨wait,.noteFailure transport⟩])).cadence.level
          (failuresSince transport (history++[⟨wait,.noteFailure transport⟩])))
          drawn transport := by
  have hcount := failureCount_run transport seed clock history
  have hfailures : failuresSince transport (history++[⟨wait,.noteFailure transport⟩]) =
      failuresSince transport history+1 := by
    simp [failuresSince,countFailure]
  refine ⟨ProbeCadence.nextSeed (Session.run seed clock history).cadence.jitterSeed,?_⟩
  rw [hfailures,← plannedInterval_saturate,← saturate_succ,← hcount,← backoff_eq]
  simp [Session.run,Session.step,Session.remaining,ProbeCadence.perform,
    ProbeCadence.timeUntilDue,ProbeCadence.noteFailure,ProbeCadence.put]
end

/-- Whatever happened before, a failure keeps its transport waiting for the planned delay up to
a quarter and for no more than the longest delay. Of two failures at the nominal level that are
among the first eight since a success, the later keeps it waiting longer, whatever was drawn. -/
theorem backoff_bounds (seed : UInt64) (clock : Instant) (transport : String)
    (history : List Timed) (wait : Duration) :
    let noted := history++[⟨wait,.noteFailure transport⟩]
    let s := Session.run seed clock noted
    let planned := plannedInterval s.cadence.level (failuresSince transport noted)
    (3*planned/4 ≤ s.remaining transport ∧
      s.remaining transport ≤ min (5*planned/4) maxInterval) ∧
    ∀ (seed' : UInt64) (clock' : Instant) (history' : List Timed) (wait' : Duration),
      let noted' := history'++[⟨wait',.noteFailure transport⟩]
      let s' := Session.run seed' clock' noted'
      s.cadence.level = .nominal → s'.cadence.level = .nominal →
      failuresSince transport noted < failuresSince transport noted' →
      failuresSince transport noted'≤8 → s.remaining transport < s'.remaining transport := by
  intro noted s planned
  obtain ⟨drawn,hremaining⟩ := remaining_noteFailure seed clock transport history wait
  have hbounds : 3*planned/4 ≤ s.remaining transport ∧
      s.remaining transport ≤ min (5*planned/4) maxInterval := by
    rw [hremaining]
    exact jitter_planned _ _ drawn transport
  refine ⟨hbounds,?_⟩
  intro seed' clock' history' wait' noted' s' hlevel hlevel' hlt hle
  obtain ⟨drawn',hremaining'⟩ := remaining_noteFailure seed' clock' transport history' wait'
  have hlater := (jitter_planned s'.cadence.level (failuresSince transport noted') drawn'
    transport).1
  rw [← hremaining',hlevel'] at hlater
  have hearlier := hbounds.2.trans (min_le_left _ _)
  simp only [planned,hlevel] at hearlier
  have hfloor : 4 ≤ floorInterval := by decide
  exact lt_of_quarters (hfloor.trans (floorInterval_le_plannedInterval _))
    (two_mul_plannedInterval_le hlt hle) hearlier hlater

theorem backoff_bounds_second_failure :
    (Session.run 7 0 ([]++[⟨fromSecs 1,.noteFailure "tor"⟩])).remaining "tor" <
      (Session.run 7 0 ([⟨fromSecs 1,.noteFailure "tor"⟩,⟨fromSecs 2,.forceAllDue⟩] ++
        [⟨fromSecs 3,.noteFailure "tor"⟩])).remaining "tor" :=
  (backoff_bounds 7 0 "tor" [] (fromSecs 1)).2 7 0
    [⟨fromSecs 1,.noteFailure "tor"⟩,⟨fromSecs 2,.forceAllDue⟩] (fromSecs 3) rfl rfl
    (by decide) (by decide)

end AetherX.Cadence
