import AetherX.BackoffBounds

/-! A return to a less severe level while failures are being noted. Each call takes its locks
one after the other, all at one instant, and other calls may run in between. -/
namespace AetherX.Cadence
open Isolation Function
open Supervisor (Instant Duration fromSecs)
variable {τ : Type*}

namespace ProbeCadence
def writeLevel (c : ProbeCadence) (level : IsolationLevel) : ProbeCadence := { c with level := level }

def rearm (c : ProbeCadence) (level : IsolationLevel) (now : Instant) : ProbeCadence :=
  { c with
    transports := fun transport => (c.transports transport).map fun st =>
      { st with nextDue := min st.nextDue (now+baseIntervalFor level) } }

def writeSeed (c : ProbeCadence) (seed : UInt64) : ProbeCadence := { c with jitterSeed := seed }

def record (c : ProbeCadence) (transport : String) (now : Instant) (level : IsolationLevel)
    (seed : UInt64) : ProbeCadence :=
  let st := c.entry transport now
  let failures := saturate 32 (st.consecutiveFailures+1)
  let delay := jitter (backoff level failures) seed transport
  c.put transport { st with consecutiveFailures := failures, nextDue := now+delay }

section
variable (c : ProbeCadence) (transport : String) (now : Instant) (level : IsolationLevel)
  (seed : UInt64)

@[simp] theorem writeSeed_level : (c.writeSeed seed).level=c.level := rfl

@[simp] theorem writeSeed_transports : (c.writeSeed seed).transports=c.transports := rfl

@[simp] theorem record_level : (c.record transport now level seed).level=c.level := by
  simp only [record,put]

/- The entry that a failure leaves for its transport. -/
theorem record_self :
    (c.record transport now level seed).transports transport =
      some { c.entry transport now with
        consecutiveFailures := saturate 32 (c.failureCount transport+1)
        nextDue := now +
          jitter (backoff level (saturate 32 (c.failureCount transport+1))) seed transport } := by
  simp only [record,put,update_self,entry_consecutiveFailures]

theorem record_of_ne {other : String} (hne : other≠transport) :
    (c.record transport now level seed).transports other=c.transports other :=
  update_of_ne hne ..
end

end ProbeCadence

inductive Setting where
  | entering
  | rearming
  | returned
  deriving DecidableEq

/- Where a call of note_failure stands, with what it has read. -/
inductive Noting where
  | entering
  | drawing (seen : IsolationLevel)
  | writing (seen : IsolationLevel) (seed : UInt64)
  | returned
  deriving DecidableEq

def Noting.seen : Noting → Option IsolationLevel
  | .drawing seen | .writing seen _ => some seen
  | .entering | .returned => none

/- The governor and its calls. For each transport the system also keeps what the program does
   not: the number drawn by the last failure written after the re-arming, if that failure had
   read another level than the new one. -/
structure System (τ : Type*) where
  cadence : ProbeCadence
  setting : Setting
  noting : τ → Noting
  stale : String → Option UInt64

inductive Section (τ : Type*) where
  | setLevel
  | noteFailure (caller : τ)

namespace System
def start (c : ProbeCadence) : System τ := ⟨c,.entering,fun _ => .entering,fun _ => none⟩

section
variable (level : IsolationLevel) (now : Instant) (transport : τ → String) [DecidableEq τ]

def setLevel (s : System τ) : System τ :=
  match s.setting with
  | .entering =>
    { s with
      cadence := s.cadence.writeLevel level
      setting := if level < s.cadence.level then .rearming else .returned }
  | .rearming => { s with cadence := s.cadence.rearm level now, setting := .returned }
  | .returned => s

def noteFailure (s : System τ) (caller : τ) : System τ :=
  match s.noting caller with
  | .entering => { s with noting := update s.noting caller (.drawing s.cadence.level) }
  | .drawing seen =>
    let seed := ProbeCadence.nextSeed s.cadence.jitterSeed
    { s with
      cadence := s.cadence.writeSeed seed
      noting := update s.noting caller (.writing seen seed) }
  | .writing seen seed =>
    { s with
      cadence := s.cadence.record (transport caller) now seen seed
      noting := update s.noting caller .returned
      stale := update s.stale (transport caller)
        (if s.setting = .returned ∧ seen≠level then some seed else none) }
  | .returned => s

def step (s : System τ) : Section τ → System τ
  | .setLevel => s.setLevel level now
  | .noteFailure caller => s.noteFailure level now transport caller

def run (c : ProbeCadence) (schedule : List (Section τ)) : System τ :=
  schedule.foldl (step level now transport) (.start c)
end

structure Completed (s : System τ) : Prop where
  setting : s.setting = .returned
  noting : ∀ caller, s.noting caller = .entering ∨ s.noting caller = .returned

end System

/- The longest delay that the new level allows after some failures. -/
def allowedDelay (level : IsolationLevel) (failures : Nat) : Duration :=
  min (5*max (baseIntervalFor level) (fromMillis 500*2^min failures 8)/4) maxInterval

section
variable (level : IsolationLevel) (failures : Nat)

theorem baseIntervalFor_le_allowedDelay : baseIntervalFor level ≤ allowedDelay level failures := by
  have hmax := le_max_left (baseIntervalFor level) (fromMillis 500*2^min failures 8)
  refine le_min ?_ (baseIntervalFor_le level)
  change @LE.le Nat _ _ _
  omega

theorem jitter_le_allowedDelay (seed : UInt64) (transport : String) :
    jitter (ProbeCadence.backoff level failures) seed transport ≤ allowedDelay level failures := by
  rw [backoff_eq]
  refine (jitter_planned level failures seed transport).2.trans (min_le_min_right _ ?_)
  exact Nat.div_le_div_right (Nat.mul_le_mul_left 5 (min_le_right _ _))
end

section
variable (old new : IsolationLevel) (now : Instant)

/- A transport keeps to the new level's bound, or a stale failure has set its time last. -/
def Scheduled (stale : Option UInt64) (name : String) (st : TransportState) : Prop :=
  match stale with
  | some seed =>
    st.nextDue=now+jitter (ProbeCadence.backoff old st.consecutiveFailures) seed name
  | none => st.nextDue ≤ now+allowedDelay new st.consecutiveFailures

structure Tracked (s : System τ) : Prop where
  level : s.cadence.level=if s.setting = .entering then old else new
  seen : ∀ caller seen, (s.noting caller).seen=some seen → seen = old ∨ seen=new
  fresh : s.setting ≠ .returned → ∀ name, s.stale name=none
  scheduled : s.setting = .returned → ∀ name st, s.cadence.transports name=some st →
    Scheduled old new now (s.stale name) name st

variable {old new now}

variable {c : ProbeCadence} {s : System τ}

theorem tracked_start : Tracked c.level new now (.start c : System τ) :=
  ⟨rfl,nofun,fun _ _ => rfl,nofun⟩

theorem scheduled_rearm {name : String} {st : TransportState}
    (h : (c.rearm new now).transports name=some st) : Scheduled old new now none name st := by
  obtain ⟨before,-,rfl⟩ := Option.map_eq_some_iff.mp h
  have hbase := baseIntervalFor_le_allowedDelay new before.consecutiveFailures
  exact (min_le_right _ _).trans (Nat.add_le_add_left hbase now)

/-- After the level is written no schedule counts until the pass over the transports, which
brings every one of them within the bound. -/
theorem Tracked.setLevel (h : Tracked old new now s) (hlt : new < old) :
    Tracked old new now (s.setLevel new now) := by
  obtain ⟨cadence,setting,noting,stale⟩ := s
  cases setting with
  | entering =>
    have hlevel : new < cadence.level := by
      rw [h.level]
      exact hlt
    have hrearming : (System.mk cadence .entering noting stale).setLevel new now =
        ⟨cadence.writeLevel new,.rearming,noting,stale⟩ := by
      simp only [System.setLevel,if_pos hlevel]
    rw [hrearming]
    exact ⟨rfl,h.seen,fun _ => h.fresh nofun,nofun⟩
  | rearming =>
    refine ⟨h.level,h.seen,fun hne => absurd rfl hne,fun _ name st hst => ?_⟩
    have hfresh : stale name=none := h.fresh nofun name
    change Scheduled old new now (stale name) name st
    rw [hfresh]
    exact scheduled_rearm hst
  | returned => exact h

variable [DecidableEq τ]

theorem seen_update {noting : τ → Noting} {caller : τ} {stage : Noting}
    (h : ∀ caller seen, (noting caller).seen=some seen → seen = old ∨ seen=new)
    (hstage : ∀ seen, stage.seen=some seen → seen = old ∨ seen=new) (other : τ)
    (seen : IsolationLevel)
    (hother : (update noting caller stage other).seen=some seen) :
    seen = old ∨ seen=new := by
  by_cases hsame : other=caller
  · subst hsame
    rw [update_self] at hother
    exact hstage seen hother
  · rw [update_of_ne hsame] at hother
    exact h other seen hother

/-- A failure that has read the new level stays within its bound, and one that has read the old
level is remembered. -/
theorem scheduled_record {seen : IsolationLevel} (seed : UInt64) (name : String)
    (hseen : seen = old ∨ seen=new) {st : TransportState}
    (hst : (c.record name now seen seed).transports name=some st) :
    Scheduled old new now (if seen≠new then some seed else none) name st := by
  rw [ProbeCadence.record_self] at hst
  obtain rfl := Option.some.inj hst
  by_cases hnew : seen=new
  · subst hnew
    rw [if_neg (not_not.mpr rfl)]
    exact Nat.add_le_add_left (jitter_le_allowedDelay seen _ seed name) now
  · obtain rfl := hseen.resolve_right hnew
    rw [if_pos hnew]
    rfl

section
variable {s : System τ} (h : Tracked old new now s) (caller : τ) (seen : IsolationLevel)
  (seed : UInt64)
include h

theorem Tracked.enter : Tracked old new now
    { s with noting := update s.noting caller (.drawing s.cadence.level) } := by
  refine ⟨h.level,seen_update h.seen ?_,h.fresh,h.scheduled⟩
  intro seen hseen
  obtain rfl := Option.some.inj hseen
  rw [h.level]
  split
  · exact .inl rfl
  · exact .inr rfl

theorem Tracked.draw (hseen : seen = old ∨ seen=new) : Tracked old new now
    { s with
      cadence := s.cadence.writeSeed seed
      noting := update s.noting caller (.writing seen seed) } := by
  refine ⟨h.level,seen_update h.seen ?_,h.fresh,h.scheduled⟩
  intro seen' hseen'
  exact Option.some.inj hseen' ▸ hseen

theorem Tracked.write (hseen : seen = old ∨ seen=new) (written : String) : Tracked old new now
    { s with
      cadence := s.cadence.record written now seen seed
      noting := update s.noting caller .returned
      stale := update s.stale written
        (if s.setting = .returned ∧ seen≠new then some seed else none) } := by
  refine ⟨(s.cadence.record_level ..).trans h.level,seen_update h.seen nofun,?_,?_⟩
  · intro hne name
    by_cases hname : name=written
    · simp [hname,show s.setting ≠ .returned from hne]
    · simpa [hname] using h.fresh hne name
  · intro hreturned name st hst
    have hset : s.setting = .returned := hreturned
    by_cases hname : name=written
    · subst hname
      simp only [hset,true_and,update_self]
      exact scheduled_record seed name hseen hst
    · simp only [update_of_ne hname]
      exact h.scheduled hset name st ((s.cadence.record_of_ne _ now seen seed hname).symm.trans hst)

theorem Tracked.noteFailure (transport : τ → String) :
    Tracked old new now (s.noteFailure new now transport caller) := by
  rw [System.noteFailure]
  cases hstage : s.noting caller with
  | entering => exact h.enter caller
  | drawing seen => exact h.draw caller seen _ (h.seen caller seen (by rw [hstage]; rfl))
  | writing seen seed =>
    exact h.write caller seen seed (h.seen caller seen (by rw [hstage]; rfl)) (transport caller)
  | returned => exact h
end

theorem Tracked.step (h : Tracked old new now s) (hlt : new < old) (transport : τ → String)
    (sec : Section τ) : Tracked old new now (s.step new now transport sec) := by
  cases sec with
  | setLevel => exact h.setLevel hlt
  | noteFailure caller => exact h.noteFailure caller transport

theorem tracked_foldl (h : Tracked old new now s) (hlt : new < old) (transport : τ → String)
    (schedule : List (Section τ)) :
    Tracked old new now (schedule.foldl (System.step new now transport) s) := by
  induction schedule generalizing s with
  | nil => exact h
  | cons sec schedule ih => exact ih (h.step hlt transport sec)
end

/-- However a return to a less severe level and failures at the same instant interleave: once
all calls have returned, every transport is due within the new level's bound exactly when every
failure does that read the old level and was the last to be written for its transport after the
re-arming. -/
theorem deescalation_in_time_iff [DecidableEq τ] (c : ProbeCadence) (level : IsolationLevel)
    (hlevel : level < c.level) (now : Instant) (transport : τ → String)
    (schedule : List (Section τ))
    (hcompleted : (System.run level now transport c schedule).Completed) :
    let s := System.run level now transport c schedule
    (∀ name st, s.cadence.transports name=some st →
      st.nextDue ≤ now+allowedDelay level st.consecutiveFailures) ↔
    ∀ name st seed, s.cadence.transports name=some st → s.stale name=some seed →
      jitter (ProbeCadence.backoff c.level st.consecutiveFailures) seed name ≤
        allowedDelay level st.consecutiveFailures := by
  intro s
  have htracked : Tracked c.level level now s := tracked_foldl tracked_start hlevel transport schedule
  constructor
  · intro hdue name st seed hst hstale
    have hscheduled := htracked.scheduled hcompleted.setting name st hst
    rw [hstale] at hscheduled
    have hle := hdue name st hst
    rw [show st.nextDue=_ from hscheduled] at hle
    exact Nat.le_of_add_le_add_left hle
  · intro hdelays name st hst
    have hscheduled := htracked.scheduled hcompleted.setting name st hst
    cases hstale : s.stale name with
    | none =>
      rw [hstale] at hscheduled
      exact hscheduled
    | some seed =>
      rw [hstale] at hscheduled
      rw [show st.nextDue=_ from hscheduled]
      exact Nat.add_le_add_left (hdelays name st seed hst hstale) now

/- A call that is over before the level is set, and one that has read the level and drawn by
   then and writes after the re-arming. -/
def notedBefore : List (Section Unit) :=
  [.noteFailure (),.noteFailure (),.noteFailure (),.setLevel,.setLevel]

def notedAcross : List (Section Unit) :=
  [.noteFailure (),.noteFailure (),.setLevel,.setLevel,.noteFailure ()]

/- A governor that has seen the network go away, and what it draws next. -/
def isolated : ProbeCadence := (ProbeCadence.withSeed 7).setLevel .totalIsolation 0

def drawn : UInt64 := ProbeCadence.nextSeed isolated.jitterSeed

theorem isolated_level : isolated.level = .totalIsolation := rfl

theorem nominal_lt_totalIsolation : IsolationLevel.nominal < .totalIsolation := by decide

theorem run_notedBefore :
    System.run .nominal 5 (fun _ => "tor") isolated notedBefore =
      ⟨(((isolated.writeSeed drawn).record "tor" 5 .totalIsolation drawn).writeLevel
          .nominal).rearm .nominal 5,.returned,
        update (fun _ => .entering) () .returned,fun _ => none⟩ := by
  simp [System.run,notedBefore,System.step,System.setLevel,System.noteFailure,System.start,
    drawn,isolated_level,nominal_lt_totalIsolation]

theorem run_notedAcross :
    System.run .nominal 5 (fun _ => "tor") isolated notedAcross =
      ⟨(((isolated.writeSeed drawn).writeLevel .nominal).rearm .nominal 5).record "tor" 5
          .totalIsolation drawn,.returned,
        update (fun _ => .entering) () .returned,
        update (fun _ => none) "tor" (some drawn)⟩ := by
  simp [System.run,notedAcross,System.step,System.setLevel,System.noteFailure,System.start,
    drawn,isolated_level,nominal_lt_totalIsolation]

/-- A failure that is noted before the level is set keeps to the new level's bound. -/
theorem deescalation_in_time_iff_noted_before :
    (System.run .nominal 5 (fun _ => "tor") isolated notedBefore).Completed ∧
      ∀ name st, (System.run .nominal 5 (fun _ => "tor") isolated
        notedBefore).cadence.transports name=some st →
          st.nextDue≤5+allowedDelay .nominal st.consecutiveFailures := by
  have hcompleted : (System.run .nominal 5 (fun _ => "tor") isolated notedBefore).Completed := by
    rw [run_notedBefore]
    exact ⟨rfl,fun _ => .inr rfl⟩
  refine ⟨hcompleted,(deescalation_in_time_iff isolated .nominal nominal_lt_totalIsolation 5
    (fun _ => "tor") notedBefore hcompleted).mpr ?_⟩
  intro name st seed _ hstale
  rw [run_notedBefore] at hstale
  cases hstale

/-- A failure that reads the level before it is set and writes after the re-arming keeps its
transport waiting as if the network were still away. -/
theorem stale_failure_undoes_deescalation :
    ¬ ∀ (c : ProbeCadence) (level : IsolationLevel) (now : Instant) (transport : Unit → String)
      (schedule : List (Section Unit)), level < c.level →
      (System.run level now transport c schedule).Completed →
      ∀ name st, (System.run level now transport c schedule).cadence.transports name=some st →
        st.nextDue ≤ now+allowedDelay level st.consecutiveFailures := by
  intro h
  have hlate := h isolated .nominal 5 (fun _ => "tor") notedAcross nominal_lt_totalIsolation
  rw [run_notedAcross] at hlate
  have hdue := hlate ⟨rfl,fun _ => .inr rfl⟩ "tor" _ (ProbeCadence.record_self ..)
  have hcount : (((isolated.writeSeed drawn).writeLevel .nominal).rearm .nominal 5).failureCount
      "tor" = 0 := rfl
  rw [hcount] at hdue
  have hbase : fromMillis (100*600) ≤ ProbeCadence.backoff .totalIsolation 1 := by decide
  have hlow := le_jitter hbase (min_le_right _ _) drawn "tor"
  have hhigh : ¬ fromMillis (75*600) ≤ allowedDelay .nominal 1 := by decide
  exact hhigh (hlow.trans (Nat.le_of_add_le_add_left hdue))

end AetherX.Cadence
