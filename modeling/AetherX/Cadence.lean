import Mathlib.Data.List.Pairwise
import Mathlib.Data.String.Basic
import AetherX.Isolation
import AetherX.Supervisor

/-! The governor of probes: when a transport may be tried again. A failure sets the next
instant, with a delay that grows, that the isolation level bounds from below and that is
jittered; asking for permission sets nothing. -/
namespace AetherX.Cadence
open Isolation Machine
open Supervisor (Instant Duration fromSecs)

def fromMillis (n : Nat) : Duration := n*1000000

def asMillis (d : Duration) : Nat := d/1000000

def floorInterval : Duration := fromMillis 500
def confirmedIsolationInterval : Duration := fromSecs 30
def totalIsolationInterval : Duration := fromSecs 60
def maxInterval : Duration := fromSecs 300
def backoffFactor : Nat := 2
def maxBackoffShift : Nat := 8
def jitterPercent : Nat := 25

def baseIntervalFor : IsolationLevel → Duration
  | .nominal | .degraded => floorInterval
  | .escalated => fromSecs 5
  | .confirmedIsolation => confirmedIsolationInterval
  | .totalIsolation => totalIsolationInterval

/- Arithmetic of the code's types: 32- and 64-bit numbers that saturate, and durations of at
   most 2^64 - 1 whole seconds. -/
def saturate (width n : Nat) : Nat := min n (2^width-1)

def checkedMul (d : Duration) (n : Nat) : Option Duration :=
  if d*n < fromSecs (2^64) then some (d*n) else none

structure TransportState where
  consecutiveFailures : Nat
  nextDue : Instant
  probesAllowed : Nat
  probesSuppressed : Nat

def TransportState.new (now : Instant) : TransportState := ⟨0,now,0,0⟩

structure CadenceStats where
  allowed : Nat
  suppressed : Nat
  resets : Nat
  forced : Nat

structure ProbeCadence where
  level : IsolationLevel
  transports : String → Option TransportState
  stats : CadenceStats
  jitterSeed : UInt64

def nameMix (transport : String) : UInt64 :=
  transport.toUTF8.data.toList.foldl (fun h b => (h ^^^ b.toUInt64)*0x1000000001b3)
    0xcbf29ce484222325

def jitter (interval : Duration) (seed : UInt64) (transport : String) : Duration :=
  let mixed := (seed ^^^ nameMix transport).toNat
  let span := jitterPercent*2
  let offset := mixed%(span+1)
  let percent := 100+offset-jitterPercent
  let millis := asMillis interval%2^64
  let jittered := saturate 64 (millis*percent)/100
  min (fromMillis (max jittered 1)) maxInterval

namespace ProbeCadence
def withSeed (seed : UInt64) : ProbeCadence := ⟨.nominal,fun _ => none,⟨0,0,0,0⟩,seed⟩

def new : ProbeCadence := withSeed 0x9E3779B97F4A7C15

/- A less severe level pulls in what was scheduled later than its own interval. -/
def setLevel (c : ProbeCadence) (level : IsolationLevel) (now : Instant) : ProbeCadence :=
  if level < c.level then
    { c with
      level := level
      transports := fun transport => (c.transports transport).map fun st =>
        { st with nextDue := min st.nextDue (now+baseIntervalFor level) } }
  else { c with level := level }

def mayProbe (c : ProbeCadence) (transport : String) (now : Instant) : Bool :=
  match c.transports transport with
  | none => true
  | some st => decide (now ≥ st.nextDue)

def entry (c : ProbeCadence) (transport : String) (now : Instant) : TransportState :=
  (c.transports transport).getD (.new now)

def put (c : ProbeCadence) (transport : String) (st : TransportState) : ProbeCadence :=
  { c with transports := Function.update c.transports transport (some st) }

def tryProbe (c : ProbeCadence) (transport : String) (now : Instant) : ProbeCadence × Bool :=
  let st := c.entry transport now
  if now ≥ st.nextDue then
    ({ c.put transport { st with probesAllowed := st.probesAllowed+1 } with
       stats := { c.stats with allowed := c.stats.allowed+1 } }, true)
  else
    ({ c.put transport { st with probesSuppressed := st.probesSuppressed+1 } with
       stats := { c.stats with suppressed := c.stats.suppressed+1 } }, false)

def nextSeed (seed : UInt64) : UInt64 := seed*6364136223846793005+1442695040888963407

def backoff (level : IsolationLevel) (failures : Nat) : Duration :=
  let shift := min failures maxBackoffShift
  let grown := (checkedMul floorInterval (saturate 32 (backoffFactor^shift))).getD maxInterval
  min (max grown (baseIntervalFor level)) maxInterval

def noteFailure (c : ProbeCadence) (transport : String) (now : Instant) : ProbeCadence :=
  let seed := nextSeed c.jitterSeed
  let st := c.entry transport now
  let failures := saturate 32 (st.consecutiveFailures+1)
  let delay := jitter (backoff c.level failures) seed transport
  { c.put transport { st with consecutiveFailures := failures, nextDue := now+delay } with
    jitterSeed := seed }

def noteSuccess (c : ProbeCadence) (transport : String) (now : Instant) : ProbeCadence :=
  { c.put transport { c.entry transport now with consecutiveFailures := 0, nextDue := now } with
    stats := { c.stats with resets := c.stats.resets+1 } }

def forceDue (c : ProbeCadence) (transport : String) (now : Instant) : ProbeCadence :=
  { c.put transport { c.entry transport now with nextDue := now } with
    stats := { c.stats with forced := c.stats.forced+1 } }

def forceAllDue (c : ProbeCadence) (now : Instant) : ProbeCadence :=
  { c with
    transports := fun transport => (c.transports transport).map fun st => { st with nextDue := now }
    stats := { c.stats with forced := c.stats.forced+1 } }

def timeUntilDue (c : ProbeCadence) (transport : String) (now : Instant) : Duration :=
  match c.transports transport with
  | none => 0
  | some st => st.nextDue-now

def failureCount (c : ProbeCadence) (transport : String) : Nat :=
  match c.transports transport with
  | none => 0
  | some st => st.consecutiveFailures

end ProbeCadence

theorem baseIntervalFor_le (level : IsolationLevel) : baseIntervalFor level ≤ maxInterval := by
  cases level <;> decide

theorem baseIntervalFor_le_backoff (level : IsolationLevel) (failures : Nat) :
    baseIntervalFor level ≤ ProbeCadence.backoff level failures :=
  le_min (le_max_right _ _) (baseIntervalFor_le level)

/-- What jitter does to an interval within the maximum: a percentage of its milliseconds. -/
theorem jitter_eq {interval : Duration} (hmax : interval ≤ maxInterval) (seed : UInt64)
    (transport : String) : ∃ percent, 75 ≤ percent ∧ percent≤125 ∧
      jitter interval seed transport =
        min (fromMillis (max (asMillis interval*percent/100) 1)) maxInterval := by
  have hmillis : asMillis interval≤300000 := Nat.div_le_div_right hmax
  have hwhole : asMillis interval%2^64=asMillis interval := Nat.mod_eq_of_lt (by omega)
  have hoffset : (seed ^^^ nameMix transport).toNat%(jitterPercent*2+1)≤50 :=
    Nat.le_of_lt_succ (Nat.mod_lt _ (by decide))
  simp only [jitter,hwhole]
  generalize (seed ^^^ nameMix transport).toNat%(jitterPercent*2+1) = offset at hoffset
  generalize asMillis interval=whole at hmillis
  have hlow : 75≤100+offset-jitterPercent := by
    simp only [jitterPercent]
    omega
  have hhigh : 100+offset-jitterPercent≤125 := by
    simp only [jitterPercent]
    omega
  have hproduct : whole*(100+offset-jitterPercent)≤300000*125 :=
    Nat.mul_le_mul hmillis hhigh
  have hsaturate : saturate 64 (whole*(100+offset-jitterPercent)) =
      whole*(100+offset-jitterPercent) := Nat.min_eq_left (by omega)
  exact ⟨_,hlow,hhigh,by rw [hsaturate]⟩

theorem le_jitter {interval millis : Nat} (hle : fromMillis (100*millis) ≤ interval)
    (hmax : interval ≤ maxInterval) (seed : UInt64) (transport : String) :
    fromMillis (75*millis) ≤ jitter interval seed transport := by
  obtain ⟨percent,hlow,-,hjitter⟩ := jitter_eq hmax seed transport
  have hwhole : 100*millis ≤ asMillis interval := (Nat.le_div_iff_mul_le (by decide)).mpr hle
  have hproduct : 100*millis*75 ≤ asMillis interval*percent := Nat.mul_le_mul hwhole hlow
  have hmillis : asMillis interval≤300000 := Nat.div_le_div_right hmax
  rw [hjitter]
  refine le_min (Nat.mul_le_mul_right _ ?_) ?_
  · omega
  · have hthree : 75*millis≤300000 := by omega
    have hcap : fromMillis 300000 ≤ maxInterval := by decide
    exact Nat.le_trans (Nat.mul_le_mul_right 1000000 hthree) hcap

theorem jitter_le {interval millis : Nat} (hpos : 0 < millis)
    (hle : interval ≤ fromMillis (100*millis)) (hmax : interval ≤ maxInterval) (seed : UInt64)
    (transport : String) : jitter interval seed transport ≤ fromMillis (125*millis) := by
  obtain ⟨percent,-,hhigh,hjitter⟩ := jitter_eq hmax seed transport
  have hwhole : asMillis interval≤100*millis :=
    (Nat.div_le_div_right hle).trans (Nat.mul_div_cancel _ (by decide)).le
  have hproduct : asMillis interval*percent≤100*millis*125 := Nat.mul_le_mul hwhole hhigh
  rw [hjitter]
  refine (min_le_left _ _).trans (Nat.mul_le_mul_right _ (max_le ?_ ?_))
  · omega
  · omega

theorem jitter_le_maxInterval (interval : Duration) (seed : UInt64) (transport : String) :
    jitter interval seed transport ≤ maxInterval :=
  min_le_right _ _

/- The least distance of two probes while isolation is confirmed: three quarters of 30 s. -/
def leastSpacing : Duration := fromMillis 22500

theorem leastSpacing_le_jitter (failures : Nat) (seed : UInt64) (transport : String) :
    leastSpacing ≤
      jitter (ProbeCadence.backoff .confirmedIsolation failures) seed transport := by
  have hbase : fromMillis (100*300) ≤ ProbeCadence.backoff .confirmedIsolation failures :=
    baseIntervalFor_le_backoff .confirmedIsolation failures
  exact le_jitter hbase (min_le_right _ _) seed transport

section
variable (c : ProbeCadence) (transport : String) (now : Instant)

theorem tryProbe_snd :
    (c.tryProbe transport now).2=decide ((c.entry transport now).nextDue ≤ now) := by
  by_cases h : (c.entry transport now).nextDue ≤ now <;> simp [ProbeCadence.tryProbe,h]

theorem tryProbe_level : (c.tryProbe transport now).1.level=c.level := by
  by_cases h : (c.entry transport now).nextDue ≤ now <;>
    simp [ProbeCadence.tryProbe,ProbeCadence.put,h]

theorem tryProbe_self : ∃ st, (c.tryProbe transport now).1.transports transport=some st ∧
    st.nextDue=(c.entry transport now).nextDue := by
  by_cases h : (c.entry transport now).nextDue ≤ now <;>
    simp [ProbeCadence.tryProbe,ProbeCadence.put,h]

theorem tryProbe_of_ne {other : String} (hne : other≠transport) :
    (c.tryProbe transport now).1.transports other=c.transports other := by
  by_cases h : (c.entry transport now).nextDue ≤ now <;>
    simp [ProbeCadence.tryProbe,ProbeCadence.put,h,hne]

theorem noteFailure_self (hlevel : c.level = .confirmedIsolation) :
    ∃ st, (c.noteFailure transport now).transports transport=some st ∧
      now+leastSpacing ≤ st.nextDue := by
  refine ⟨_,Function.update_self ..,Nat.add_le_add_left ?_ now⟩
  rw [hlevel]
  exact leastSpacing_le_jitter _ _ transport

theorem noteFailure_of_ne {other : String} (hne : other≠transport) :
    (c.noteFailure transport now).transports other=c.transports other :=
  Function.update_of_ne hne ..

theorem setLevel_same (hlevel : c.level = .confirmedIsolation) :
    c.setLevel .confirmedIsolation now=c := by
  have hsame : ¬ IsolationLevel.confirmedIsolation < c.level := by
    rw [hlevel]
    decide
  rw [ProbeCadence.setLevel,if_neg hsame,← hlevel]
end

/- The calls of a run in which the level stays confirmed and no success and no wake-up is
   reported. Each comes some time after the one before. -/
inductive Call where
  | tryProbe (transport : String)
  | noteFailure (transport : String)
  | setLevel

structure Event where
  wait : Duration
  call : Call

/- A run: the governor and the clock, the probes that were allowed, and for each transport the
   last allowed probe if no failure was noted since. -/
structure Watch where
  cadence : ProbeCadence
  clock : Instant
  allowed : List (String × Instant)
  pending : String → Option Instant

namespace Watch
def start (cadence : ProbeCadence) (clock : Instant) : Watch := ⟨cadence,clock,[],fun _ => none⟩

def perform (w : Watch) (now : Instant) : Call → Watch
  | .tryProbe transport =>
    let asked := w.cadence.tryProbe transport now
    if asked.2 then
      ⟨asked.1,now,w.allowed++[(transport, now)],
        Function.update w.pending transport (some now)⟩
    else { w with cadence := asked.1, clock := now }
  | .noteFailure transport =>
    ⟨w.cadence.noteFailure transport now,now,w.allowed,
      Function.update w.pending transport none⟩
  | .setLevel => { w with cadence := w.cadence.setLevel .confirmedIsolation now, clock := now }

def step (w : Watch) (e : Event) : Watch := w.perform (w.clock+e.wait) e.call

end Watch

/-- Any two allowed probes of one transport are three quarters of the interval apart. -/
def Spaced (allowed : List (String × Instant)) : Prop :=
  allowed.Pairwise fun p q => p.1=q.1 → p.2+leastSpacing ≤ q.2

/-- A probe is not asked for while the last one of the transport has not been reported, or not
before that one is long enough ago. -/
def Patient (w : Watch) (e : Event) : Prop :=
  match e.call with
  | .tryProbe transport => ∀ asked, w.pending transport=some asked →
    asked+leastSpacing ≤ w.clock+e.wait
  | _ => True

/- Where a transport's next instant stands to its allowed probes. -/
structure Inv (w : Watch) : Prop where
  level : w.cadence.level = .confirmedIsolation
  past : ∀ p∈w.allowed, p.2 ≤ w.clock
  unreported : ∀ transport asked, w.pending transport=some asked →
    (transport, asked)∈w.allowed ∧ (∀ p∈w.allowed, p.1=transport → p.2 ≤ asked) ∧
      ∃ st, w.cadence.transports transport=some st ∧ st.nextDue ≤ asked
  reported : ∀ p∈w.allowed, w.pending p.1=none →
    ∃ st, w.cadence.transports p.1=some st ∧ p.2+leastSpacing ≤ st.nextDue

theorem inv_start {c : ProbeCadence} (h : c.level = .confirmedIsolation) (clock : Instant) :
    Inv (.start c clock) :=
  ⟨h,nofun,nofun,nofun⟩

section
variable {w : Watch} {now : Instant} {transport : String}

theorem perform_allowed (h : (w.cadence.entry transport now).nextDue ≤ now) :
    w.perform now (.tryProbe transport) =
      ⟨(w.cadence.tryProbe transport now).1,now,w.allowed++[(transport, now)],
        Function.update w.pending transport (some now)⟩ := by
  simp [Watch.perform,tryProbe_snd,h]

theorem perform_suppressed (h : ¬ (w.cadence.entry transport now).nextDue ≤ now) :
    w.perform now (.tryProbe transport) =
      { w with cadence := (w.cadence.tryProbe transport now).1, clock := now } := by
  simp [Watch.perform,tryProbe_snd,h]

/-- While a probe is unreported the next one is allowed at once. -/
theorem Inv.due (h : Inv w) (hnow : w.clock ≤ now) {asked : Instant}
    (hpending : w.pending transport=some asked) :
    (w.cadence.entry transport now).nextDue ≤ now := by
  obtain ⟨hmem,_,st,hst,hdue⟩ := h.unreported transport asked hpending
  rw [ProbeCadence.entry,hst]
  exact (hdue.trans (h.past _ hmem)).trans hnow

theorem Inv.suppressed (h : Inv w) (hnow : w.clock ≤ now)
    (hdue : ¬ (w.cadence.entry transport now).nextDue ≤ now) :
    Inv (w.perform now (.tryProbe transport)) := by
  rw [perform_suppressed hdue]
  refine ⟨(tryProbe_level ..).trans h.level,fun p hp => (h.past p hp).trans hnow,
    fun u asked hu => ?_,fun p hp hu => ?_⟩
  · have hne : u≠transport := by
      rintro rfl
      exact hdue (h.due hnow hu)
    obtain ⟨hmem,hlast,hst⟩ := h.unreported u asked hu
    refine ⟨hmem,hlast,?_⟩
    rwa [tryProbe_of_ne _ _ _ hne]
  · obtain ⟨st,hst,hspace⟩ := h.reported p hp hu
    by_cases hp1 : p.1=transport
    · obtain ⟨st',hst',hnext⟩ := tryProbe_self w.cadence transport now
      rw [ProbeCadence.entry,← hp1,hst] at hnext
      refine ⟨st',by rwa [hp1],?_⟩
      rwa [hnext]
    · exact ⟨st,by rwa [tryProbe_of_ne _ _ _ hp1],hspace⟩

theorem Inv.allowed (h : Inv w) (hnow : w.clock ≤ now)
    (hdue : (w.cadence.entry transport now).nextDue ≤ now) :
    Inv (w.perform now (.tryProbe transport)) := by
  rw [perform_allowed hdue]
  refine ⟨(tryProbe_level ..).trans h.level,fun p hp => ?_,fun u asked hu => ?_,
    fun p hp hu => ?_⟩
  · rcases List.mem_append.mp hp with hp | hp
    · exact (h.past p hp).trans hnow
    · rw [List.mem_singleton.mp hp]
  · by_cases hu1 : u=transport
    · subst hu1
      have hasked : now=asked := by simpa using hu
      subst hasked
      refine ⟨by simp,fun p hp _ => ?_,?_⟩
      · rcases List.mem_append.mp hp with hp | hp
        · exact (h.past p hp).trans hnow
        · rw [List.mem_singleton.mp hp]
      · obtain ⟨st,hst,hnext⟩ := tryProbe_self w.cadence u now
        exact ⟨st,hst,hnext.trans_le hdue⟩
    · have hu' : w.pending u=some asked := by simpa [hu1] using hu
      obtain ⟨hmem,hlast,hst⟩ := h.unreported u asked hu'
      refine ⟨List.mem_append_left _ hmem,fun p hp hpu => ?_,?_⟩
      · rcases List.mem_append.mp hp with hp | hp
        · exact hlast p hp hpu
        · rw [List.mem_singleton.mp hp] at hpu
          exact absurd hpu.symm hu1
      · rwa [tryProbe_of_ne _ _ _ hu1]
  · have hne : p.1≠transport := by
      intro hp1
      simp [hp1] at hu
    have hold : p∈w.allowed := by
      rcases List.mem_append.mp hp with hp | hp
      · exact hp
      · rw [List.mem_singleton.mp hp] at hne
        exact absurd rfl hne
    rw [tryProbe_of_ne _ _ _ hne]
    exact h.reported p hold (by simpa [hne] using hu)

theorem Inv.failure (h : Inv w) (hnow : w.clock ≤ now) :
    Inv (w.perform now (.noteFailure transport)) := by
  refine ⟨h.level,fun p hp => (h.past p hp).trans hnow,fun u asked hu => ?_,fun p hp hu => ?_⟩
  · have hne : u≠transport := by
      rintro rfl
      simp [Watch.perform] at hu
    have hu' : w.pending u=some asked := by simpa [Watch.perform,hne] using hu
    obtain ⟨hmem,hlast,hst⟩ := h.unreported u asked hu'
    refine ⟨hmem,hlast,?_⟩
    simpa [Watch.perform,noteFailure_of_ne _ _ _ hne] using hst
  · by_cases hp1 : p.1=transport
    · obtain ⟨st,hst,hspace⟩ := noteFailure_self w.cadence transport now h.level
      refine ⟨st,by rwa [hp1],Nat.le_trans (Nat.add_le_add_right ?_ _) hspace⟩
      exact (h.past p hp).trans hnow
    · have hu' : w.pending p.1=none := by simpa [Watch.perform,hp1] using hu
      simpa [Watch.perform,noteFailure_of_ne _ _ _ hp1] using h.reported p hp hu'

theorem Inv.step (h : Inv w) (e : Event) : Inv (w.step e) := by
  have hnow : w.clock ≤ w.clock+e.wait := Nat.le_add_right _ _
  rw [Watch.step]
  cases e.call with
  | tryProbe transport =>
    by_cases hdue : (w.cadence.entry transport (w.clock+e.wait)).nextDue ≤ w.clock+e.wait
    · exact h.allowed hnow hdue
    · exact h.suppressed hnow hdue
  | noteFailure transport => exact h.failure hnow
  | setLevel =>
    rw [Watch.perform,setLevel_same _ _ h.level]
    exact ⟨h.level,fun p hp => (h.past p hp).trans hnow,h.unreported,h.reported⟩

theorem spaced_append_iff {allowed : List (String × Instant)} (h : Spaced allowed) :
    Spaced (allowed++[(transport, now)]) ↔
      ∀ p∈allowed, p.1=transport → p.2+leastSpacing ≤ now := by
  simp [Spaced,List.pairwise_append,show allowed.Pairwise _ from h]

theorem spaced_allowed_iff (h : Inv w) (hspaced : Spaced w.allowed)
    (hdue : (w.cadence.entry transport now).nextDue ≤ now) :
    Spaced (w.perform now (.tryProbe transport)).allowed ↔
      ∀ asked, w.pending transport=some asked → asked+leastSpacing ≤ now := by
  rw [perform_allowed hdue,spaced_append_iff hspaced]
  constructor
  · intro hall asked hpending
    exact hall _ (h.unreported transport asked hpending).1 rfl
  · rintro hpatient p hp rfl
    cases hpending : w.pending p.1 with
    | some asked =>
      have hlast := (h.unreported p.1 asked hpending).2.1 p hp rfl
      exact Nat.le_trans (Nat.add_le_add_right hlast _) (hpatient asked hpending)
    | none =>
      obtain ⟨st,hst,hspace⟩ := h.reported p hp hpending
      rw [ProbeCadence.entry,hst] at hdue
      exact Nat.le_trans hspace hdue

/-- One call keeps the spacing exactly if it is patient. -/
theorem spaced_step_iff (h : Inv w) (hspaced : Spaced w.allowed) (e : Event) :
    Spaced (w.step e).allowed ↔ Patient w e := by
  have hnow : w.clock ≤ w.clock+e.wait := Nat.le_add_right _ _
  rw [Watch.step,Patient]
  cases e.call with
  | tryProbe transport =>
    by_cases hdue : (w.cadence.entry transport (w.clock+e.wait)).nextDue ≤ w.clock+e.wait
    · exact spaced_allowed_iff h hspaced hdue
    · rw [perform_suppressed hdue]
      exact iff_of_true hspaced fun asked hpending => absurd (h.due hnow hpending) hdue
  | noteFailure transport => exact iff_of_true hspaced trivial
  | setLevel => exact iff_of_true hspaced trivial

theorem allowed_prefix_step (w : Watch) (e : Event) : w.allowed <+: (w.step e).allowed := by
  rw [Watch.step]
  cases e.call with
  | tryProbe transport =>
    by_cases hdue : (w.cadence.entry transport (w.clock+e.wait)).nextDue ≤ w.clock+e.wait
    · rw [perform_allowed hdue]
      exact List.prefix_append _ _
    · have hsame : (w.perform (w.clock+e.wait) (.tryProbe transport)).allowed=w.allowed := by
        rw [perform_suppressed hdue]
      exact hsame.symm ▸ List.prefix_rfl
  | noteFailure transport => exact List.prefix_rfl
  | setLevel => exact List.prefix_rfl

theorem allowed_prefix_run (events : List Event) (w : Watch) :
    w.allowed <+: (events.foldl Watch.step w).allowed := by
  induction events generalizing w with
  | nil => exact List.prefix_rfl
  | cons e events ih => exact (allowed_prefix_step w e).trans (ih (w.step e))
end

/-- While the level stays confirmed, the probes of each transport are three quarters of the
interval apart exactly when every request for a probe that finds the last one unreported comes
that long after it. -/
theorem spaced_iff_patient (c : ProbeCadence) (hlevel : c.level = .confirmedIsolation)
    (clock : Instant) (events : List Event) :
    Spaced (events.foldl Watch.step (.start c clock)).allowed ↔
      ∀ before e after, events=before++e::after →
        Patient (before.foldl Watch.step (.start c clock)) e := by
  have hempty : Spaced (Watch.start c clock).allowed := .nil
  have hsteps : ∀ w e, Inv w → Spaced w.allowed → (Spaced (w.step e).allowed ↔ Patient w e) :=
    fun w e h hspaced => spaced_step_iff h hspaced e
  rw [← foldl_along_iff Inv (fun w e h => h.step e) hsteps events (inv_start hlevel clock) hempty]
  constructor
  · rintro hspaced before after rfl
    rw [List.foldl_append] at hspaced
    exact hspaced.sublist (allowed_prefix_run after _).sublist
  · exact fun hall => hall events [] (List.append_nil events).symm

def confirmed (seed : UInt64) : ProbeCadence :=
  { ProbeCadence.withSeed seed with level := .confirmedIsolation }

theorem spaced_iff_patient_reported :
    Spaced ([⟨0,.tryProbe "tor"⟩,⟨fromSecs 2,.noteFailure "tor"⟩,
      ⟨fromSecs 60,.tryProbe "tor"⟩].foldl Watch.step (.start (confirmed 7) 0)).allowed := by
  rw [spaced_iff_patient _ rfl,steps_along_cons,steps_along_cons,steps_along_cons]
  exact ⟨nofun,trivial,nofun,steps_along_nil⟩

/-- A second probe is allowed at once when it is asked for before the first one has failed,
although the failures of both are noted. -/
theorem overlapping_probes_unspaced :
    ¬ ∀ (seed : UInt64) (clock : Instant) (events : List Event),
      (∀ p∈(events.foldl Watch.step (.start (confirmed seed) clock)).allowed,
        (events.foldl Watch.step (.start (confirmed seed) clock)).pending p.1=none) →
      Spaced (events.foldl Watch.step (.start (confirmed seed) clock)).allowed := by
  intro h
  have hallowed : ([⟨0,.tryProbe "tor"⟩,⟨0,.tryProbe "tor"⟩,⟨fromSecs 2,.noteFailure "tor"⟩,
      ⟨fromSecs 1,.noteFailure "tor"⟩].foldl Watch.step (.start (confirmed 7) 0)).allowed =
      [("tor", 0),("tor", 0)] := by decide +kernel
  have hspaced := h 7 0 [⟨0,.tryProbe "tor"⟩,⟨0,.tryProbe "tor"⟩,
    ⟨fromSecs 2,.noteFailure "tor"⟩,⟨fromSecs 1,.noteFailure "tor"⟩]
  rw [hallowed] at hspaced
  have hreported : Spaced [("tor", 0),("tor", 0)] := hspaced (by decide +kernel)
  simp [Spaced,leastSpacing,fromMillis] at hreported

end AetherX.Cadence
