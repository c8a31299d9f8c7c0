import AetherX.Machine
import Mathlib.Tactic.SplitIfs
import Mathlib.Algebra.Group.Nat.Defs

/-! One supervised instance: its record, the calls that touch it and the watcher that
restarts it, with the adapter's answers as they come. -/
namespace AetherX.Supervisor
open Machine

inductive CoreKind where
  | unspecified
  | xray
  | singBox
  | amneziaWg
  | naive
  | persis
  deriving DecidableEq

inductive CoreStatus where
  | unspecified
  | starting
  | running
  | draining
  | degraded
  | stopped
  | failed
  deriving DecidableEq

structure CoreHandle where
  instanceId : String
  kind : CoreKind
  protocolId : String
  deriving DecidableEq

/- Adapters report a success rate of zero or one. -/
structure HealthStatus where
  status : CoreStatus
  successRate : Nat
  deriving DecidableEq

structure IoError where
  message : String
  deriving DecidableEq

inductive SupervisorError where
  | instanceNotFound (instanceId : String)
  | instanceExists (instanceId : String)
  | invalidConfig (kind : CoreKind) (reason : String)
  | coreExited (instanceId : String) (source : IoError)
  | restartBudgetExhausted (instanceId : String)
  | notHotSwapCapable (instanceId : String)
  | stalePolicy (provided effective : Nat)
  | generic (message : String)
  deriving DecidableEq

/- Times are nanoseconds of one monotonic clock. -/
abbrev Instant := Nat
abbrev Duration := Nat

def fromSecs (n : Nat) : Duration := n*1000000000

structure InstanceRecord where
  handle : CoreHandle
  kind : CoreKind
  protocolId : String
  startedAt : Instant
  restarts : UInt32
  maxRestarts : UInt32
  restartWindow : Duration
  effectiveRevision : Nat

/- The record that start_core makes once the core is ready. -/
def InstanceRecord.started (handle : CoreHandle) (kind : CoreKind) (protocolId : String)
    (maxRestarts restartWindowSecs : UInt32) (now : Instant) : InstanceRecord where
  handle := handle
  kind := kind
  protocolId := protocolId
  startedAt := now
  restarts := 0
  maxRestarts := maxRestarts
  restartWindow := fromSecs (max restartWindowSecs.toNat 1)
  effectiveRevision := 0

namespace InstanceRecord
/- The end of restart_core and of an automatic restart. -/
def countRestart (rec : InstanceRecord) (now : Instant) : InstanceRecord :=
  { rec with restarts := rec.restarts+1, startedAt := now }

def hotSwap (rec : InstanceRecord) (newProtocolId : String) (now : Instant) : InstanceRecord :=
  { rec with protocolId := newProtocolId, startedAt := now }

def applyPolicy (rec : InstanceRecord) (revision : Nat) :
    Except SupervisorError (InstanceRecord × Nat) :=
  if revision ≤ rec.effectiveRevision then .error (.stalePolicy revision rec.effectiveRevision)
  else .ok ({ rec with effectiveRevision := revision }, revision)

/- The budget check of the watcher, under the limits it read at the start of its round. -/
def nowWithinWindow (rec : InstanceRecord) (maxRestarts : UInt32) (window : Duration)
    (now : Instant) : Bool :=
  rec.restarts < maxRestarts && now-rec.startedAt < window

end InstanceRecord

def watchInterval : Duration := fromSecs 5

/- Where the watcher is in its loop; it reads handle and limits when it wakes up. -/
inductive Watcher where
  | asleep (until_ : Instant)
  | probing (handle : CoreHandle) (maxRestarts : UInt32) (window : Duration)
  | reported (handle : CoreHandle) (maxRestarts : UInt32) (window : Duration)
  | restarting (handle : CoreHandle)
  | exited (error : SupervisorError)
  deriving DecidableEq

/- The instance with its watcher, and the times at which the watcher's restarts were made. -/
structure Watched where
  now : Instant
  record : InstanceRecord
  watcher : Watcher
  automatic : List Instant

inductive Event where
  | tick (d : Duration)
  | wake
  | health (result : Except SupervisorError HealthStatus)
  | check
  | restarted (result : Except SupervisorError Unit)
  | restartCore
  | hotSwap (newProtocolId : String)
  | applyPolicy (revision : Nat)

namespace Watched
def sleep (s : Watched) : Watched := { s with watcher := .asleep (s.now+watchInterval) }

/- An adapter that cannot be asked counts as a failed core. -/
def statusOf : Except SupervisorError HealthStatus → CoreStatus
  | .ok h => h.status
  | .error _ => .failed

/- Each step is one critical section, or the return of a call into the adapter. -/
def next (hasAdapter : CoreKind → Bool) (s : Watched) : Event → Option Watched
  | .tick d => some { s with now := s.now+d }
  | .wake =>
    match s.watcher with
    | .asleep until_ =>
      if s.now < until_ then none
      else if hasAdapter s.record.kind then
        some { s with watcher := .probing s.record.handle s.record.maxRestarts s.record.restartWindow }
      else some s.sleep
    | _ => none
  | .health result =>
    match s.watcher with
    | .probing handle maxRestarts window =>
      if statusOf result = .failed then some { s with watcher := .reported handle maxRestarts window }
      else some s.sleep
    | _ => none
  | .check =>
    match s.watcher with
    | .reported handle maxRestarts window =>
      if s.record.nowWithinWindow maxRestarts window s.now then
        some { s with watcher := .restarting handle }
      else some { s with watcher := .exited (.restartBudgetExhausted handle.instanceId) }
    | _ => none
  -- a failed restart is logged and counted like any other
  | .restarted _ =>
    match s.watcher with
    | .restarting _ =>
      some { s with
        record := s.record.countRestart s.now
        automatic := s.automatic++[s.now] }.sleep
    | _ => none
  -- its last section, after the adapter's restart and the readiness probe
  | .restartCore => some { s with record := s.record.countRestart s.now }
  | .hotSwap newProtocolId => some { s with record := s.record.hotSwap newProtocolId s.now }
  | .applyPolicy revision =>
    match s.record.applyPolicy revision with
    | .ok (record, _) => some { s with record := record }
    | .error _ => some s

def opened (handle : CoreHandle) (kind : CoreKind) (protocolId : String)
    (maxRestarts restartWindowSecs : UInt32) (now : Instant) : Watched :=
  sleep ⟨now,.started handle kind protocolId maxRestarts restartWindowSecs now,.asleep now,[]⟩

/-- The automatic restarts made within the restart window that ends now. -/
def recent (s : Watched) : List Instant :=
  s.automatic.filter fun t => s.now-t < s.record.restartWindow

end Watched

section
variable {hasAdapter : CoreKind → Bool} {s t : Watched}

inductive Moved (s : Watched) : Event → Watched → Prop
  | tick (d : Duration) : Moved s (.tick d) { s with now := s.now+d }
  | probe {until_ : Instant} : s.watcher = .asleep until_ → Moved s .wake { s with
      watcher := .probing s.record.handle s.record.maxRestarts s.record.restartWindow }
  | unattended {until_ : Instant} : s.watcher = .asleep until_ → Moved s .wake s.sleep
  | failed {handle : CoreHandle} {maxRestarts : UInt32} {window : Duration}
      {result : Except SupervisorError HealthStatus} :
      s.watcher = .probing handle maxRestarts window →
      Moved s (.health result) { s with watcher := .reported handle maxRestarts window }
  | healthy {handle : CoreHandle} {maxRestarts : UInt32} {window : Duration}
      {result : Except SupervisorError HealthStatus} :
      s.watcher = .probing handle maxRestarts window → Moved s (.health result) s.sleep
  | restart {handle : CoreHandle} {maxRestarts : UInt32} {window : Duration} :
      s.watcher = .reported handle maxRestarts window →
      s.record.nowWithinWindow maxRestarts window s.now=true →
      Moved s .check { s with watcher := .restarting handle }
  | giveUp {handle : CoreHandle} {maxRestarts : UInt32} {window : Duration} :
      s.watcher = .reported handle maxRestarts window →
      Moved s .check { s with watcher := .exited (.restartBudgetExhausted handle.instanceId) }
  | restarted {handle : CoreHandle} {result : Except SupervisorError Unit} :
      s.watcher = .restarting handle → Moved s (.restarted result) { s with
        record := s.record.countRestart s.now
        automatic := s.automatic++[s.now] }.sleep
  | restartCore : Moved s .restartCore { s with record := s.record.countRestart s.now }
  | hotSwap (newProtocolId : String) :
      Moved s (.hotSwap newProtocolId) { s with record := s.record.hotSwap newProtocolId s.now }
  | newPolicy (revision : Nat) : Moved s (.applyPolicy revision) { s with
      record := { s.record with effectiveRevision := revision } }
  | stalePolicy (revision : Nat) : Moved s (.applyPolicy revision) s

theorem moved_of_next {event : Event} (hnext : s.next hasAdapter event=some t) :
    Moved s event t := by
  cases event with
  | tick d =>
    cases hnext
    exact .tick d
  | wake =>
    rw [Watched.next] at hnext
    split at hnext
    next until_ hw =>
      split_ifs at hnext
      · cases hnext
        exact .probe hw
      · cases hnext
        exact .unattended hw
    next => cases hnext
  | health result =>
    rw [Watched.next] at hnext
    split at hnext
    next handle maxRestarts window hw =>
      split_ifs at hnext
      · cases hnext
        exact .failed hw
      · cases hnext
        exact .healthy hw
    next => cases hnext
  | check =>
    rw [Watched.next] at hnext
    split at hnext
    next handle maxRestarts window hw =>
      split_ifs at hnext with hbudget
      · cases hnext
        exact .restart hw hbudget
      · cases hnext
        exact .giveUp hw
    next => cases hnext
  | restarted result =>
    rw [Watched.next] at hnext
    split at hnext
    next handle hw =>
      cases hnext
      exact .restarted hw
    next => cases hnext
  | restartCore =>
    cases hnext
    exact .restartCore
  | hotSwap newProtocolId =>
    cases hnext
    exact .hotSwap newProtocolId
  | applyPolicy revision =>
    rw [Watched.next,InstanceRecord.applyPolicy] at hnext
    split_ifs at hnext
    · cases hnext
      exact .stalePolicy revision
    · cases hnext
      exact .newPolicy revision
end

section
variable (hasAdapter : CoreKind → Bool)

def Restarts (s : Watched) : Prop :=
  ∃ t handle, s.next hasAdapter .check=some t ∧ t.watcher = .restarting handle

/-- A failed core is restarted exactly when fewer than the maximum were restarted recently. -/
def RestartsWithinBudget (s : Watched) : Prop :=
  Restarts hasAdapter s ↔ s.recent.length < s.record.maxRestarts.toNat

/-- While restarts are left the core failed within a window of its last start, and when none is
left the watcher itself made them all within the last window. -/
def FlapsOnly (s : Watched) : Prop :=
  (s.record.restarts < s.record.maxRestarts →
      s.now-s.record.startedAt < s.record.restartWindow) ∧
    (s.record.maxRestarts ≤ s.record.restarts → s.record.maxRestarts.toNat ≤ s.recent.length)

instance (s : Watched) : Decidable (FlapsOnly s) := inferInstanceAs (Decidable (_ ∧ _))

/- The counter of restarts is a machine word. -/
def NoWrap (s : Watched) : Event → Prop
  | .restarted _ => s.record.restarts.toNat+1<2^32
  | .restartCore => s.record.restarts.toNat+1<2^32
  | _ => True

def Step (s : Watched) (event : Event) (t : Watched) : Prop :=
  NoWrap s event ∧ s.next hasAdapter event=some t
end

section
variable {hasAdapter : CoreKind → Bool} {s t : Watched}

/- The limits the watcher read are those of the record, and there is budget for a restart
   that has begun. -/
def Agrees (s : Watched) : Watcher → Prop
  | .probing _ maxRestarts window =>
    maxRestarts=s.record.maxRestarts ∧ window=s.record.restartWindow
  | .reported _ maxRestarts window =>
    maxRestarts=s.record.maxRestarts ∧ window=s.record.restartWindow
  | .restarting _ => s.automatic.length < s.record.maxRestarts.toNat
  | _ => True

/- The history against the record and the watcher. -/
structure Counted (s : Watched) : Prop where
  counter : s.automatic.length ≤ s.record.restarts.toNat
  budget : s.automatic.length ≤ s.record.maxRestarts.toNat
  agrees : Agrees s s.watcher

theorem Counted.sleep (h : Counted s) : Counted s.sleep := ⟨h.counter,h.budget,trivial⟩

theorem toNat_countRestart {rec : InstanceRecord} (h : rec.restarts.toNat+1<2^32)
    (now : Instant) : (rec.countRestart now).restarts.toNat=rec.restarts.toNat+1 := by
  rw [InstanceRecord.countRestart,UInt32.toNat_add]
  exact Nat.mod_eq_of_lt h

theorem Counted.next (h : Counted s) {event : Event} (hstep : Step hasAdapter s event t) :
    Counted t := by
  obtain ⟨hwrap,hnext⟩ := hstep
  have hagrees := h.agrees
  cases moved_of_next hnext with
  | tick d => exact ⟨h.counter,h.budget,h.agrees⟩
  | probe hw => exact ⟨h.counter,h.budget,rfl,rfl⟩
  | unattended hw => exact h.sleep
  | failed hw =>
    rw [hw] at hagrees
    exact ⟨h.counter,h.budget,hagrees⟩
  | healthy hw => exact h.sleep
  | restart hw hbudget =>
    -- a restart begins only below the maximum
    rw [hw] at hagrees
    rw [InstanceRecord.nowWithinWindow,Bool.and_eq_true,decide_eq_true_eq,hagrees.1] at hbudget
    exact ⟨h.counter,h.budget,Nat.lt_of_le_of_lt h.counter hbudget.1⟩
  | giveUp hw => exact ⟨h.counter,h.budget,trivial⟩
  | restarted hw =>
    rw [hw] at hagrees
    refine ⟨?_,?_,trivial⟩
    · simp only [Watched.sleep,List.length_append,List.length_singleton]
      rw [toNat_countRestart hwrap]
      exact Nat.succ_le_succ h.counter
    · simp only [Watched.sleep,List.length_append,List.length_singleton]
      exact hagrees
  | restartCore =>
    refine ⟨?_,h.budget,h.agrees⟩
    rw [toNat_countRestart hwrap]
    exact Nat.le_succ_of_le h.counter
  | hotSwap newProtocolId => exact ⟨h.counter,h.budget,h.agrees⟩
  | newPolicy revision => exact ⟨h.counter,h.budget,h.agrees⟩
  | stalePolicy revision => exact h

theorem counted_opened (handle : CoreHandle) (kind : CoreKind) (protocolId : String)
    (maxRestarts restartWindowSecs : UInt32) (now : Instant) :
    Counted (.opened handle kind protocolId maxRestarts restartWindowSecs now) :=
  ⟨Nat.zero_le _,Nat.zero_le _,trivial⟩

theorem next_wake (hasAdapter : CoreKind → Bool) {until_ : Instant} (hw : s.watcher = .asleep until_) (hnow : until_ ≤ s.now)
    (hadapter : hasAdapter s.record.kind=true) :
    s.next hasAdapter .wake=some { s with
      watcher := .probing s.record.handle s.record.maxRestarts s.record.restartWindow } := by
  rw [Watched.next,hw]
  exact (if_neg (Nat.not_lt.mpr hnow)).trans (if_pos hadapter)

variable {handle : CoreHandle} {maxRestarts : UInt32} {window : Duration}

theorem next_check_within (hasAdapter : CoreKind → Bool)
    (hw : s.watcher = .reported handle maxRestarts window)
    (hbudget : s.record.nowWithinWindow maxRestarts window s.now=true) :
    s.next hasAdapter .check=some { s with watcher := .restarting handle } := by
  rw [Watched.next,hw]
  exact if_pos hbudget

theorem Counted.restarts_iff (h : Counted s)
    (hw : s.watcher = .reported handle maxRestarts window) :
    Restarts hasAdapter s ↔ s.record.restarts < s.record.maxRestarts ∧
      s.now-s.record.startedAt < s.record.restartWindow := by
  have hagrees := h.agrees
  rw [hw] at hagrees
  obtain ⟨rfl,rfl⟩ := hagrees
  by_cases hbudget : s.record.nowWithinWindow s.record.maxRestarts s.record.restartWindow s.now
  · have hnext := next_check_within hasAdapter hw hbudget
    rw [InstanceRecord.nowWithinWindow,Bool.and_eq_true,decide_eq_true_eq,decide_eq_true_eq]
      at hbudget
    exact ⟨fun _ => hbudget,fun _ => ⟨_,handle,hnext,rfl⟩⟩
  · have hnext : s.next hasAdapter .check=some { s with
        watcher := .exited (.restartBudgetExhausted handle.instanceId) } := by
      rw [Watched.next,hw]
      exact if_neg hbudget
    rw [InstanceRecord.nowWithinWindow,Bool.and_eq_true,decide_eq_true_eq,decide_eq_true_eq]
      at hbudget
    refine ⟨fun hrestarts => ?_,fun hlimits => absurd hlimits hbudget⟩
    obtain ⟨t,handle',ht,hwatcher⟩ := hrestarts
    rw [hnext] at ht
    cases ht
    cases hwatcher

theorem Counted.withinBudget_iff (h : Counted s)
    (hw : s.watcher = .reported handle maxRestarts window) :
    RestartsWithinBudget hasAdapter s ↔ FlapsOnly s := by
  have hrecent : s.recent.length ≤ s.automatic.length := List.length_filter_le _ _
  have hcounter := h.counter
  rw [RestartsWithinBudget,h.restarts_iff hw,FlapsOnly]
  by_cases hleft : s.record.restarts < s.record.maxRestarts
  · have hfew : s.recent.length < s.record.maxRestarts.toNat := by
      have := UInt32.lt_iff_toNat_lt.mp hleft
      omega
    have hnot : ¬ s.record.maxRestarts ≤ s.record.restarts := UInt32.not_le.mpr hleft
    simp [hleft,hfew,hnot]
  · have hused : s.record.maxRestarts ≤ s.record.restarts := UInt32.not_lt.mp hleft
    simp [hleft,hused]

/-- From the start of a core, through any health and restart results, manual restarts, hot swaps
and policies at any times, as long as the counter does not overflow: no window holds more automatic
restarts than the maximum, and a failed core is restarted exactly when fewer were made in the
window before if and only if the core has done nothing but flap. -/
theorem restart_budget_iff (hasAdapter : CoreKind → Bool) (handle : CoreHandle) (kind : CoreKind)
    (protocolId : String) (maxRestarts restartWindowSecs : UInt32) (start : Instant)
    (events : List Event) (s : Watched)
    (hrun : Run (Step hasAdapter)
      (.opened handle kind protocolId maxRestarts restartWindowSecs start) events s) :
    (∀ first, (s.automatic.filter fun t => first ≤ t ∧ t ≤ first+s.record.restartWindow).length ≤
      s.record.maxRestarts.toNat) ∧
    ∀ handle maxRestarts window, s.watcher = .reported handle maxRestarts window →
      (RestartsWithinBudget hasAdapter s ↔ FlapsOnly s) := by
  have hcounted : Counted s := hrun.invariant
    (counted_opened handle kind protocolId maxRestarts restartWindowSecs start)
    fun s event t hs hstep => hs.next hstep
  constructor
  · intro first
    exact Nat.le_trans (List.length_filter_le _ _) hcounted.budget
  · intro handle maxRestarts window hw
    exact hcounted.withinBudget_iff hw
end

/- Three restarts per minute, as the supervisor's own tests configure it. -/
def testCore : Watched := .opened ⟨"svc-1",.singBox, "mock"⟩ .singBox "mock" 3 60 0

def anyAdapter (_ : CoreKind) : Bool := true

/- Some time passes, and then the watcher's round finds the core failed. -/
def failsAfter (d : Duration) : List Event := [.tick d,.wake,.health (.ok ⟨.failed,0⟩)]

theorem run_failsAfter {s : Watched} {until_ : Instant} (d : Duration)
    (hw : s.watcher = .asleep until_) (hd : until_ ≤ s.now+d) :
    Run (Step anyAdapter) s (failsAfter d) { s with
      now := s.now+d
      watcher := .reported s.record.handle s.record.maxRestarts s.record.restartWindow } := by
  have hwake := next_wake anyAdapter (s := { s with now := s.now+d }) hw hd rfl
  exact .cons ⟨trivial,rfl⟩ (.cons ⟨trivial,hwake⟩ (.cons ⟨trivial,rfl⟩ (.refl _)))

/- The core fails in the first round, is restarted, and fails again in the second. -/
def flapping : List Event :=
  failsAfter (fromSecs 5)++([.check,.restarted (.ok ())]++failsAfter (fromSecs 5))

def flapped : Watched where
  now := 0+fromSecs 5+fromSecs 5
  record := testCore.record.countRestart (0+fromSecs 5)
  watcher := .reported ⟨"svc-1",.singBox, "mock"⟩ 3 (fromSecs 60)
  automatic := [0+fromSecs 5]

theorem run_flapping : Run (Step anyAdapter) testCore flapping flapped := by
  have hcheck := next_check_within anyAdapter (s := { testCore with
    now := 0+fromSecs 5
    watcher := .reported ⟨"svc-1",.singBox, "mock"⟩ 3 (fromSecs 60) }) rfl (by decide +kernel)
  refine (run_failsAfter (fromSecs 5) rfl (Nat.le_refl _)).append (.append (.cons ⟨trivial,hcheck⟩
    (.cons ⟨?_,rfl⟩ (.refl _))) (run_failsAfter (fromSecs 5) rfl (Nat.le_refl _)))
  exact (by decide : 0+1<2^32)

theorem restart_budget_iff_flapping :
    FlapsOnly flapped ∧ RestartsWithinBudget anyAdapter flapped ∧ flapped.recent.length=1 := by
  have hflaps : FlapsOnly flapped := by decide +kernel
  refine ⟨hflaps,?_,by decide +kernel⟩
  exact ((restart_budget_iff anyAdapter _ _ _ _ _ _ flapping flapped run_flapping).2 _ _ _ rfl).mpr
    hflaps

/- The same core runs well for a minute and fails once after that. -/
def steady : Watched where
  now := 0+fromSecs 65
  record := testCore.record
  watcher := .reported ⟨"svc-1",.singBox, "mock"⟩ 3 (fromSecs 60)
  automatic := []

theorem steady_core_given_up :
    ¬ ∀ (hasAdapter : CoreKind → Bool) handle kind protocolId maxRestarts restartWindowSecs start events s,
      Run (fun s event t => s.next hasAdapter event=some t)
        (.opened handle kind protocolId maxRestarts restartWindowSecs start) events s →
      (∀ first, (s.automatic.filter fun t => first ≤ t ∧ t ≤ first+s.record.restartWindow).length ≤
        s.record.maxRestarts.toNat) ∧
      ∀ handle maxRestarts window, s.watcher = .reported handle maxRestarts window →
        RestartsWithinBudget hasAdapter s := by
  intro hall
  have hsteady : Run (Step anyAdapter) testCore (failsAfter (fromSecs 65)) steady :=
    run_failsAfter (fromSecs 65) rfl (by decide +kernel)
  have hrun := hsteady.mono fun s event t (hstep : Step anyAdapter s event t) => hstep.2
  have hlaw := (hall anyAdapter _ _ _ _ _ _ _ steady hrun).2 _ _ _ rfl
  have hcounted : Counted steady := ⟨Nat.zero_le _,Nat.zero_le _,rfl,rfl⟩
  exact absurd ((hcounted.withinBudget_iff rfl).mp hlaw) (by decide +kernel)

end AetherX.Supervisor
