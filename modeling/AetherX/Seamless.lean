import Mathlib.Data.List.Destutter
import Mathlib.Data.List.Sort
import Mathlib.Data.String.Basic
import AetherX.BufferReplay
import AetherX.DpiForecast

/-! The controller that keeps standby transports warm and spends one when the transport in use
is lost or about to be lost, over the bridge that holds the transport in use. -/
namespace AetherX.Seamless
open Supervisor (Instant Duration fromSecs)
open BufferReplay (RingBufferReplay)
open DpiForecast (DpiForecaster Forecast ForecastReport HealthSample)
open Machine List

structure TransportHandle where
  name : String
  establishedAt : Instant
  bytesForwarded : Nat
  deriving DecidableEq

structure FailoverBridge where
  active : TransportHandle
  standby : List TransportHandle
  failoverCount : Nat

namespace FailoverBridge
def new (active : TransportHandle) (standbys : List TransportHandle) : FailoverBridge :=
  ⟨active,standbys,0⟩

def addStandby (b : FailoverBridge) (handle : TransportHandle) : FailoverBridge :=
  { b with standby := b.standby++[handle] }

def first (b : FailoverBridge) (name : String) : Option TransportHandle :=
  b.standby.find? fun h => h.name=name

def promote (b : FailoverBridge) (name : String) : FailoverBridge × Bool :=
  match b.first name with
  | some next =>
    ({ active := next
       standby := b.standby.eraseP fun h => h.name=name
       failoverCount := b.failoverCount+1 }, true)
  | none => (b, false)

section
variable (b : FailoverBridge) (name : String) (establishedAt : Instant) (bytesForwarded : Nat)

theorem first_addStandby : (b.addStandby ⟨name,establishedAt,bytesForwarded⟩).first name =
    some ((b.first name).getD ⟨name,establishedAt,bytesForwarded⟩) := by
  cases hfirst : b.standby.find? fun h => h.name=name <;>
    simp [first,addStandby,find?_append,hfirst]

/-- A handle that was just added can be promoted by name, but an older one listed under that
name goes first. -/
theorem promote_addStandby :
    ∃ b', (b.addStandby ⟨name,establishedAt,bytesForwarded⟩).promote name=(b', true) ∧
      b'.active=(b.first name).getD ⟨name,establishedAt,bytesForwarded⟩ := by
  simp [promote,first_addStandby]

theorem first_getD_name :
    ((b.first name).getD ⟨name,establishedAt,bytesForwarded⟩).name=name := by
  cases hfirst : b.first name with
  | none => rfl
  | some h => simpa using find?_some hfirst
end

end FailoverBridge

def warmTtl : Duration := fromSecs 5
def maxWarmStandbys : Nat := 2

structure WarmStandby where
  name : String
  warmedAt : Instant
  rttMs : Nat
  deriving DecidableEq

def WarmStandby.isFresh (w : WarmStandby) (now : Instant) : Bool := now-w.warmedAt ≤ warmTtl

/- The clock is read anew for each standby, in the order of the list. -/
def keepFresh : List WarmStandby → (Nat → Instant) → List WarmStandby
  | [], _ => []
  | w::rest, clock =>
    let kept := keepFresh rest fun i => clock (i+1)
    if w.isFresh (clock 0) then w::kept else kept

theorem keepFresh_sublist (warm : List WarmStandby) (clock : Nat → Instant) :
    (keepFresh warm clock).Sublist warm := by
  induction warm generalizing clock with
  | nil => exact List.Sublist.slnil
  | cons w rest ih =>
    simp only [keepFresh]
    split
    · exact (ih _).cons_cons w
    · exact (ih _).cons w

variable {w : WarmStandby} {warm : List WarmStandby}

theorem isFresh_of_mem_keepFresh {clock : Nat → Instant} (h : w∈keepFresh warm clock) :
    ∃ i < warm.length, w.isFresh (clock i)=true := by
  induction warm generalizing clock with
  | nil => simp [keepFresh] at h
  | cons v rest ih =>
    have later (hr : w∈keepFresh rest fun i => clock (i+1)) :
        ∃ i<(v::rest).length, w.isFresh (clock i)=true := by
      obtain ⟨i,hi,hw⟩ := ih hr
      exact ⟨i+1,Nat.succ_lt_succ hi,hw⟩
    simp only [keepFresh] at h
    split at h
    next hv =>
      cases h with
      | head => exact ⟨0,Nat.succ_pos _,hv⟩
      | tail _ hr => exact later hr
    next => exact later h

/- The standby with the lowest round trip, the first of several, and the others in place. -/
def takeFastest : List WarmStandby → Option (WarmStandby × List WarmStandby)
  | [] => none
  | w::rest =>
    match takeFastest rest with
    | none => some (w, [])
    | some (v, others) => if w.rttMs ≤ v.rttMs then some (w, rest) else some (v, w::others)

theorem takeFastest_eq_none : takeFastest warm=none ↔ warm=[] := by
  cases warm with
  | nil => simp [takeFastest]
  | cons w rest =>
    simp only [takeFastest]
    split
    · simp
    · split <;> simp

/- What is taken from a list: its only standby, its first, or the fastest of the others. -/
theorem takeFastest_cons {v : WarmStandby} {rest others : List WarmStandby}
    (h : takeFastest (v::rest)=some (w, others)) :
    (rest=[] ∧ w=v ∧ others=[]) ∨
    ∃ u others', takeFastest rest=some (u, others') ∧
      (v.rttMs ≤ u.rttMs ∧ w=v ∧ others=rest ∨
        u.rttMs < v.rttMs ∧ w=u ∧ others=v::others') := by
  simp only [takeFastest] at h
  split at h
  next hrest =>
    cases h
    exact .inl ⟨takeFastest_eq_none.mp hrest,rfl,rfl⟩
  next u others' hrest =>
    refine .inr ⟨u,others',hrest,?_⟩
    split at h
    next hle =>
      cases h
      exact .inl ⟨hle,rfl,rfl⟩
    next hlt =>
      cases h
      exact .inr ⟨Nat.lt_of_not_le hlt,rfl,rfl⟩

theorem takeFastest_perm {others : List WarmStandby} (h : takeFastest warm=some (w, others)) : warm.Perm (w::others) := by
  induction warm generalizing w others with
  | nil => cases h
  | cons v rest ih =>
    obtain ⟨rfl,rfl,rfl⟩ | ⟨u,others',hrest,⟨-,rfl,rfl⟩ | ⟨-,rfl,rfl⟩⟩ := takeFastest_cons h
    · exact List.Perm.refl _
    · exact List.Perm.refl _
    · exact ((ih hrest).cons v).trans (List.Perm.swap w v others')

structure TransportConnection where
  transportName : String
  established : Bool
  rttMs : Nat

/- What a candidate answers when it is visited in one call: whether it is available, how its
   connect ends (no connection for an error), and the instant at which it has ended. -/
structure Attempt where
  available : Bool
  connect : Option TransportConnection
  doneAt : Instant

def Attempt.connection (t : Attempt) : Option TransportConnection :=
  if t.available then t.connect.filter (·.established) else none

inductive ContinuityAction where
  | idle
  | warmed (names : List String)
  | switchedHot (source target : String) (replayedFrames handshakeCostMs : Nat)
  | switchedCold (source target : String) (replayedFrames handshakeCostMs : Nat)
  | noPathAvailable (preservedFrames : Nat)
  deriving DecidableEq

def ContinuityAction.Moves : ContinuityAction → Prop
  | .switchedHot source target _ _ => source≠target
  | .switchedCold source target _ _ => source≠target
  | _ => True

structure ContinuityStats where
  seamlessSwitches : Nat
  coldSwitches : Nat
  failedSwitches : Nat
  warmups : Nat
  framesReplayed : Nat

structure SeamlessController where
  forecaster : DpiForecaster
  candidates : List String
  bridge : FailoverBridge
  replay : RingBufferReplay
  warm : List WarmStandby
  stats : ContinuityStats

/- The outside of one switch_now: the clock, read for each standby, and the candidates'
   answers, by their place in the list. -/
structure Round where
  clock : Nat → Instant
  attempts : Nat → Attempt

/- The outside of one act: that of each of the parts it may come to. -/
structure Cycle where
  expiry : Nat → Instant
  warmUp : Nat → Attempt
  switch : Round

def standbyOf (active : String) (already : List String) (visit : String × Attempt) :
    Option WarmStandby :=
  if visit.1=active ∨ visit.1∈already then none
  else visit.2.connection.map fun conn => ⟨visit.1,visit.2.doneAt,conn.rttMs⟩

/- The loop of warm_standbys, with the number of standbys held so far. -/
def warmedNow (active : String) (already : List String) :
    Nat → List (String × Attempt) → List WarmStandby
  | _, [] => []
  | held, visit::rest =>
    if maxWarmStandbys ≤ held then []
    else
      match standbyOf active already visit with
      | some w => w::warmedNow active already (held+1) rest
      | none => warmedNow active already held rest

theorem warmedNow_eq_take (active : String) (already : List String) (held : Nat)
    (visits : List (String × Attempt)) :
    warmedNow active already held visits =
      (visits.filterMap (standbyOf active already)).take (maxWarmStandbys-held) := by
  induction visits generalizing held with
  | nil => simp [warmedNow]
  | cons visit rest ih =>
    simp only [warmedNow]
    split
    next hfull => rw [Nat.sub_eq_zero_of_le hfull,take_zero]
    next hroom =>
      split
      next w hw =>
        have hsub : maxWarmStandbys-held=maxWarmStandbys-(held+1)+1 := by omega
        rw [filterMap_cons_some hw,hsub,take_succ_cons,ih]
      next hw => rw [filterMap_cons_none hw,ih]

def coldConnection (active : String) (visit : String × Attempt) : Option TransportConnection :=
  if visit.1=active then none else visit.2.connection

/- The loop of the cold switch: every connection that comes up joins the standby list, and the
   first that can be promoted ends it. -/
def coldLoop (active : String) (bridge : FailoverBridge) :
    List (String × Attempt) → FailoverBridge × Option TransportConnection
  | [] => (bridge, none)
  | visit::rest =>
    match coldConnection active visit with
    | none => coldLoop active bridge rest
    | some conn =>
      let handle : TransportHandle := ⟨conn.transportName,visit.2.doneAt,1⟩
      let (bridge, promoted) := (bridge.addStandby handle).promote conn.transportName
      if promoted then (bridge, some conn) else coldLoop active bridge rest

theorem coldLoop_connection (active : String) (bridge : FailoverBridge)
    (visits : List (String × Attempt)) :
    (coldLoop active bridge visits).2=visits.findSome? (coldConnection active) := by
  induction visits with
  | nil => rfl
  | cons visit rest ih =>
    cases hconn : coldConnection active visit with
    | none => simp only [coldLoop,hconn,ih,findSome?_cons]
    | some conn =>
      obtain ⟨b',hpromote,-⟩ := bridge.promote_addStandby conn.transportName visit.2.doneAt 1
      simp only [coldLoop,hconn,hpromote,findSome?_cons,if_true]

theorem coldLoop_active (active : String) (bridge : FailoverBridge)
    (visits : List (String × Attempt)) :
    (coldLoop active bridge visits).1.active.name =
      ((visits.findSome? (coldConnection active)).map (·.transportName)).getD
        bridge.active.name := by
  induction visits with
  | nil => rfl
  | cons visit rest ih =>
    cases hconn : coldConnection active visit with
    | none => simp only [coldLoop,hconn,ih,findSome?_cons]
    | some conn =>
      obtain ⟨b',hpromote,hactive⟩ :=
        bridge.promote_addStandby conn.transportName visit.2.doneAt 1
      simp only [coldLoop,hconn,hpromote,findSome?_cons,if_true,hactive]
      exact bridge.first_getD_name ..

namespace SeamlessController
def new (forecaster : DpiForecaster) (candidates : List String) (bridge : FailoverBridge)
    (replay : RingBufferReplay) : SeamlessController :=
  ⟨forecaster,candidates,bridge,replay,[],⟨0,0,0,0,0⟩⟩

def visits (c : SeamlessController) (attempts : Nat → Attempt) : List (String × Attempt) :=
  c.candidates.zipIdx.map fun (name, i) => (name, attempts i)

def expireStale (c : SeamlessController) (clock : Nat → Instant) : SeamlessController :=
  { c with warm := keepFresh c.warm clock }

def warmStandbys (c : SeamlessController) (attempts : Nat → Attempt) :
    SeamlessController × List String :=
  let already := c.warm.map WarmStandby.name
  let warmed := warmedNow c.bridge.active.name already c.warm.length (c.visits attempts)
  let warm := c.warm++warmed
  let all := ((warm.map WarmStandby.name).insertionSort (· ≤ ·)).destutter (· ≠ ·)
  ({ c with
     warm := warm
     stats := { c.stats with warmups := c.stats.warmups+warmed.length } },
    if warmed=[] then [] else all)

def switchCold (c : SeamlessController) (source : String) (attempts : Nat → Attempt) :
    SeamlessController × ContinuityAction :=
  let (bridge, conn) := coldLoop c.bridge.active.name c.bridge (c.visits attempts)
  match conn with
  | some conn =>
    let (replay, frames) := c.replay.onDrop
    ({ c with
       bridge := bridge
       replay := replay
       stats := { c.stats with
         coldSwitches := c.stats.coldSwitches+1
         framesReplayed := c.stats.framesReplayed+frames.length } },
      .switchedCold source conn.transportName frames.length (max conn.rttMs 1))
  | none =>
    ({ c with
       bridge := bridge
       stats := { c.stats with failedSwitches := c.stats.failedSwitches+1 } },
      .noPathAvailable c.replay.pending)

def switchHot (c : SeamlessController) (source : String) (w : WarmStandby)
    (attempts : Nat → Attempt) : SeamlessController × ContinuityAction :=
  let (bridge, promoted) := (c.bridge.addStandby ⟨w.name,w.warmedAt,1⟩).promote w.name
  let c := { c with bridge := bridge }
  if promoted then
    let (replay, frames) := c.replay.onDrop
    ({ c with
       replay := replay
       stats := { c.stats with
         seamlessSwitches := c.stats.seamlessSwitches+1
         framesReplayed := c.stats.framesReplayed+frames.length } },
      .switchedHot source w.name frames.length 0)
  else c.switchCold source attempts

def switchNow (c : SeamlessController) (r : Round) : SeamlessController × ContinuityAction :=
  let source := c.bridge.active.name
  let fresh := keepFresh c.warm r.clock
  match takeFastest fresh with
  | some (w, others) => switchHot { c with warm := others } source w r.attempts
  | none => switchCold { c with warm := fresh } source r.attempts

def act (c : SeamlessController) (report : ForecastReport) (primaryAlive : Bool) (m : Cycle) :
    SeamlessController × ContinuityAction :=
  let c := c.expireStale m.expiry
  if !primaryAlive then c.switchNow m.switch
  else
    match report.forecast with
    | .stable => (c, .idle)
    | .rising => (c, .idle)
    | .prewarmAdvised =>
      let (c, names) := c.warmStandbys m.warmUp
      (c, if names=[] then .idle else .warmed names)
    | .switchAdvised => (c.warmStandbys m.warmUp).1.switchNow m.switch

def observe (c : SeamlessController) (sample : HealthSample) : SeamlessController :=
  { c with forecaster := (c.forecaster.observe sample).1 }

def tick (c : SeamlessController) (sample : HealthSample) (primaryAlive : Bool) (m : Cycle) :
    SeamlessController × ContinuityAction :=
  (c.observe sample).act (c.forecaster.observe sample).2 primaryAlive m

def ready (c : SeamlessController) (attempts : Nat → Attempt) : List WarmStandby :=
  (c.visits attempts).filterMap (standbyOf c.bridge.active.name (c.warm.map WarmStandby.name))

/- The connection of the first candidate other than the active one that comes up. -/
def firstUp (c : SeamlessController) (attempts : Nat → Attempt) : Option TransportConnection :=
  (c.visits attempts).findSome? (coldConnection c.bridge.active.name)

def fastest (c : SeamlessController) (clock : Nat → Instant) : Option WarmStandby :=
  (takeFastest (keepFresh c.warm clock)).map Prod.fst

theorem warmStandbys_warm (c : SeamlessController) (attempts : Nat → Attempt) :
    (c.warmStandbys attempts).1.warm =
      c.warm++(c.ready attempts).take (maxWarmStandbys-c.warm.length) :=
  congrArg (c.warm ++ ·) (warmedNow_eq_take ..)

@[simp] theorem warmStandbys_bridge (c : SeamlessController) (attempts : Nat → Attempt) :
    (c.warmStandbys attempts).1.bridge=c.bridge := rfl

/-- What a switch does while a standby is fresh. -/
structure SpendsHot (c : SeamlessController) (r : Round) (w : WarmStandby)
    (others : List WarmStandby) : Prop where
  warm : (c.switchNow r).1.warm = others
  active : (c.switchNow r).1.bridge.active =
    (c.bridge.first w.name).getD ⟨w.name,w.warmedAt,1⟩
  reports : ∃ frames, (c.switchNow r).2 = .switchedHot c.bridge.active.name w.name frames 0

variable {c : SeamlessController}

theorem switchNow_hot {r : Round} {w : WarmStandby} {others : List WarmStandby}
    (h : takeFastest (keepFresh c.warm r.clock)=some (w, others)) : SpendsHot c r w others := by
  obtain ⟨b',hpromote,hactive⟩ := c.bridge.promote_addStandby w.name w.warmedAt 1
  constructor
  · simp only [switchNow,h,switchHot,hpromote,if_true]
  · simpa only [switchNow,h,switchHot,hpromote,if_true] using hactive
  · exact ⟨c.replay.onDrop.2.length,by simp only [switchNow,h,switchHot,hpromote,if_true]⟩

/-- What a switch does while no standby is fresh. -/
structure SwitchesCold (c : SeamlessController) (r : Round) : Prop where
  warm : (c.switchNow r).1.warm=[]
  active : (c.switchNow r).1.bridge.active.name =
    ((c.firstUp r.attempts).map (·.transportName)).getD c.bridge.active.name
  reports : (∃ conn frames cost, c.firstUp r.attempts=some conn ∧
      (c.switchNow r).2 = .switchedCold c.bridge.active.name conn.transportName frames cost) ∨
    c.firstUp r.attempts=none ∧ ∃ preserved, (c.switchNow r).2 = .noPathAvailable preserved

theorem switchNow_cold {r : Round} (h : keepFresh c.warm r.clock=[]) : SwitchesCold c r := by
  have hvisits : visits { c with warm := [] } r.attempts=c.visits r.attempts := rfl
  have hactive := coldLoop_active c.bridge.active.name c.bridge (c.visits r.attempts)
  have hloop := coldLoop_connection c.bridge.active.name c.bridge (c.visits r.attempts)
  change _=c.firstUp r.attempts at hloop
  change _=((c.firstUp r.attempts).map (·.transportName)).getD _ at hactive
  cases hup : c.firstUp r.attempts with
  | none =>
    rw [hup] at hloop hactive
    constructor
    · simp only [switchNow,h,takeFastest,switchCold,hvisits,hloop]
    · simpa only [switchNow,h,takeFastest,switchCold,hvisits,hloop,hup] using hactive
    · refine .inr ⟨hup,c.replay.pending,?_⟩
      simp only [switchNow,h,takeFastest,switchCold,hvisits,hloop]
  | some conn =>
    rw [hup] at hloop hactive
    constructor
    · simp only [switchNow,h,takeFastest,switchCold,hvisits,hloop]
    · simpa only [switchNow,h,takeFastest,switchCold,hvisits,hloop,hup] using hactive
    · refine .inl ⟨conn,c.replay.onDrop.2.length,max conn.rttMs 1,hup,?_⟩
      simp only [switchNow,h,takeFastest,switchCold,hvisits,hloop]

theorem switchNow_cases (c : SeamlessController) (r : Round) :
    (∃ w others, takeFastest (keepFresh c.warm r.clock)=some (w, others) ∧
      SpendsHot c r w others) ∨
    keepFresh c.warm r.clock=[] ∧ SwitchesCold c r := by
  cases h : takeFastest (keepFresh c.warm r.clock) with
  | none => exact .inr ⟨takeFastest_eq_none.mp h,switchNow_cold (takeFastest_eq_none.mp h)⟩
  | some spent => exact .inl ⟨spent.1,spent.2,rfl,switchNow_hot h⟩

/-- A switch reports the name that the bridge's active handle has afterwards. -/
theorem switchNow_target {r : Round} {source target : String} {frames cost : Nat}
    (h : (c.switchNow r).2 = .switchedHot source target frames cost ∨ (c.switchNow r).2 = .switchedCold source target frames cost) :
    (c.switchNow r).1.bridge.active.name=target := by
  obtain ⟨w,others,-,hot⟩ | ⟨-,cold⟩ := c.switchNow_cases r
  · obtain ⟨_,hreport⟩ := hot.reports
    have htarget : w.name=target := by
      simp only [hreport,ContinuityAction.switchedHot.injEq,reduceCtorEq,or_false] at h
      exact h.2.1
    rw [hot.active,FailoverBridge.first_getD_name,htarget]
  · obtain ⟨conn,_,_,hup,hreport⟩ | ⟨-,_,hreport⟩ := cold.reports
    · simp only [hreport,ContinuityAction.switchedCold.injEq,reduceCtorEq,false_or] at h
      rw [cold.active,hup]
      exact h.2.1
    · simp [hreport] at h

end SeamlessController

inductive Call where
  | tick (sample : HealthSample) (primaryAlive : Bool) (m : Cycle)
  | act (report : ForecastReport) (primaryAlive : Bool) (m : Cycle)
  | warmStandbys (attempts : Nat → Attempt)
  | switchNow (r : Round)
  | addStandby (handle : TransportHandle)

def Call.run (c : SeamlessController) : Call → SeamlessController
  | .tick sample primaryAlive m => (c.tick sample primaryAlive m).1
  | .act report primaryAlive m => (c.act report primaryAlive m).1
  | .warmStandbys attempts => (c.warmStandbys attempts).1
  | .switchNow r => (c.switchNow r).1
  | .addStandby handle => { c with bridge := c.bridge.addStandby handle }

/- The functions that the calls come to, one after the other. -/
inductive Part where
  | observe (sample : HealthSample)
  | expireStale (clock : Nat → Instant)
  | warmStandbys (attempts : Nat → Attempt)
  | switchNow (r : Round)
  | addStandby (handle : TransportHandle)

def actParts (forecast : Forecast) (primaryAlive : Bool) (m : Cycle) : List Part :=
  .expireStale m.expiry ::
    if !primaryAlive then [.switchNow m.switch]
    else
      match forecast with
      | .stable => []
      | .rising => []
      | .prewarmAdvised => [.warmStandbys m.warmUp]
      | .switchAdvised => [.warmStandbys m.warmUp,.switchNow m.switch]

def Call.parts (c : SeamlessController) : Call → List Part
  | .tick sample primaryAlive m =>
    .observe sample::actParts (c.forecaster.observe sample).2.forecast primaryAlive m
  | .act report primaryAlive m => actParts report.forecast primaryAlive m
  | .warmStandbys attempts => [.warmStandbys attempts]
  | .switchNow r => [.switchNow r]
  | .addStandby handle => [.addStandby handle]

/- The controller, every standby that was ever warmed, and what the switches reported. -/
structure Session where
  controller : SeamlessController
  warmed : List WarmStandby
  reports : List ContinuityAction

def Session.next (s : Session) : Part → Session
  | .observe sample => { s with controller := s.controller.observe sample }
  | .expireStale clock => { s with controller := s.controller.expireStale clock }
  | .warmStandbys attempts =>
    let c := (s.controller.warmStandbys attempts).1
    { s with controller := c, warmed := s.warmed++c.warm.drop s.controller.warm.length }
  | .switchNow r =>
    let (c, action) := s.controller.switchNow r
    { s with controller := c, reports := s.reports++[action] }
  | .addStandby handle =>
    { s with controller :=
      { s.controller with bridge := s.controller.bridge.addStandby handle } }

def start (c : SeamlessController) : Session := ⟨c,[],[]⟩

def runParts (s : Session) : List Call → List Part
  | [] => []
  | call::calls =>
    let parts := call.parts s.controller
    parts++runParts (parts.foldl Session.next s) calls

theorem act_eq_parts (s : Session) (report : ForecastReport) (primaryAlive : Bool) (m : Cycle) :
    ((actParts report.forecast primaryAlive m).foldl Session.next s).controller =
      (s.controller.act report primaryAlive m).1 := by
  cases primaryAlive with
  | false => rfl
  | true => cases hforecast : report.forecast <;> simp [actParts,SeamlessController.act,hforecast,
      Session.next]

/-- The parts of a call do what the call does. -/
theorem parts_eq_run (s : Session) (call : Call) :
    ((call.parts s.controller).foldl Session.next s).controller=call.run s.controller := by
  cases call with
  | tick sample primaryAlive m => exact act_eq_parts (s.next (.observe sample)) _ primaryAlive m
  | act report primaryAlive m => exact act_eq_parts s report primaryAlive m
  | warmStandbys attempts => rfl
  | switchNow r => rfl
  | addStandby handle => rfl

theorem runParts_eq_run (s : Session) (calls : List Call) :
    ((runParts s calls).foldl Session.next s).controller =
      calls.foldl Call.run s.controller := by
  induction calls generalizing s with
  | nil => rfl
  | cons call calls ih =>
    rw [runParts,foldl_append,ih,parts_eq_run,foldl_cons]

/-- Every standby that is warm was warmed by the controller. -/
theorem warm_subset_warmed (c : SeamlessController) (hc : c.warm=[]) (parts : List Part) :
    (parts.foldl Session.next (start c)).controller.warm ⊆
      (parts.foldl Session.next (start c)).warmed := by
  suffices h : ∀ s : Session, s.controller.warm ⊆ s.warmed →
      (parts.foldl Session.next s).controller.warm ⊆ (parts.foldl Session.next s).warmed from
    h (start c) (by simp [start,hc])
  induction parts with
  | nil => exact fun s h => h
  | cons part parts ih =>
    intro s h
    apply ih
    cases part with
    | observe sample => exact h
    | expireStale clock =>
      exact fun w hw => h ((keepFresh_sublist s.controller.warm clock).subset hw)
    | warmStandbys attempts =>
      intro w hw
      simp only [Session.next,SeamlessController.warmStandbys_warm,drop_left,
        mem_append] at hw ⊢
      exact hw.imp_left fun hw => h hw
    | switchNow r =>
      intro w hw
      obtain ⟨v,others,hspent,hot⟩ | ⟨-,cold⟩ := s.controller.switchNow_cases r
      · have hothers : w∈others := hot.warm ▸ hw
        have hfresh : w∈keepFresh s.controller.warm r.clock :=
          (takeFastest_perm hspent).mem_iff.mpr (mem_cons_of_mem v hothers)
        exact h ((keepFresh_sublist _ _).subset hfresh)
      · have hnil : w∈[] := cold.warm ▸ hw
        cases hnil
    | addStandby handle => exact h

/- A switch that reports a hot standby leaves the bridge on the connection of that standby:
   its name, and the instant it was warmed, which is within the time a standby counts. -/
def HotSwitch (s : Session) (r : Round) : Prop :=
  let switched := s.controller.switchNow r
  ∀ source target frames cost, switched.2 = .switchedHot source target frames cost →
    ∃ w∈s.warmed, s.controller.fastest r.clock=some w ∧ w.name=target ∧
      switched.1.bridge.active.name=target ∧
      switched.1.bridge.active.establishedAt=w.warmedAt ∧
      ∃ i < s.controller.warm.length,
        r.clock i-switched.1.bridge.active.establishedAt ≤ warmTtl

/- The first handle that the bridge lists under the name of the fastest fresh standby, if it
   lists one, was established when that standby was warmed. -/
def FirstIsWarmed (s : Session) (r : Round) : Prop :=
  ∀ w, s.controller.fastest r.clock=some w →
    ∀ h, s.controller.bridge.first w.name=some h → h.establishedAt=w.warmedAt

theorem hotSwitch_iff {s : Session} (hwarmed : s.controller.warm ⊆ s.warmed) (r : Round) :
    HotSwitch s r ↔ FirstIsWarmed s r := by
  obtain ⟨w,others,hspent,hot⟩ | ⟨hnone,cold⟩ := s.controller.switchNow_cases r
  · have hfastest : s.controller.fastest r.clock=some w := by
      simp [SeamlessController.fastest,hspent]
    obtain ⟨frames,hreport⟩ := hot.reports
    constructor
    · intro h v hv g hg
      obtain ⟨u,-,hu,-,-,hest,-⟩ := h _ _ _ _ hreport
      obtain rfl : w=v := by simpa [hfastest] using hv
      obtain rfl : w=u := by simpa [hfastest] using hu
      rw [← hest,hot.active,hg]
      rfl
    · intro h source target frames' cost heq
      rw [hreport] at heq
      obtain ⟨-,rfl,-,-⟩ : s.controller.bridge.active.name=source ∧ w.name=target ∧
          frames=frames' ∧ 0=cost := by simpa using heq
      have hest : (s.controller.switchNow r).1.bridge.active.establishedAt=w.warmedAt := by
        rw [hot.active]
        cases hfirst : s.controller.bridge.first w.name with
        | none => rfl
        | some g => exact h w hfastest g hfirst
      have hfresh : w∈keepFresh s.controller.warm r.clock :=
        (takeFastest_perm hspent).mem_iff.mpr mem_cons_self
      obtain ⟨i,hi,hage⟩ := isFresh_of_mem_keepFresh hfresh
      refine ⟨w,hwarmed ((keepFresh_sublist _ _).subset hfresh),hfastest,rfl,
        SeamlessController.switchNow_target (.inl hreport),hest,i,hi,?_⟩
      rw [hest]
      simpa [WarmStandby.isFresh] using hage
  · have hfastest : s.controller.fastest r.clock=none := by
      simp [SeamlessController.fastest,hnone,takeFastest]
    refine iff_of_true ?_ (fun w hw => by simp [hfastest] at hw)
    intro source target frames cost heq
    obtain ⟨conn,_,_,-,hreport⟩ | ⟨-,_,hreport⟩ := cold.reports
    · exact absurd (hreport.symm.trans heq) (by simp)
    · exact absurd (hreport.symm.trans heq) (by simp)

/-- In every run, a hot switch leaves the bridge on the connection that was warmed exactly
when no other connection is listed before it under its name. -/
theorem hot_switch_iff (forecaster : DpiForecaster) (candidates : List String)
    (bridge : FailoverBridge) (replay : RingBufferReplay) (calls : List Call) :
    let s := start (.new forecaster candidates bridge replay)
    (∀ before r after, runParts s calls=before ++ .switchNow r::after →
      HotSwitch (before.foldl Session.next s) r) ↔
    ∀ before r after, runParts s calls=before ++ .switchNow r::after →
      FirstIsWarmed (before.foldl Session.next s) r := by
  have hwarmed := warm_subset_warmed (.new forecaster candidates bridge replay) rfl
  constructor
  · intro h before r after heq
    exact (hotSwitch_iff (hwarmed before) r).mp (h before r after heq)
  · intro h before r after heq
    exact (hotSwitch_iff (hwarmed before) r).mpr (h before r after heq)

def webtunnelUp : Attempt := ⟨true,some ⟨"webtunnel",true,20⟩,fromSecs 100⟩

/-- The bridge has listed a handle of webtunnel since the start. The controller warms
webtunnel a hundred seconds later and switches to it: the bridge promotes the old handle. -/
theorem listed_handle_promoted : ¬ ∀ (forecaster : DpiForecaster) (candidates : List String)
    (bridge : FailoverBridge) (replay : RingBufferReplay) (calls : List Call),
    let s := start (.new forecaster candidates bridge replay)
    ∀ before r after, runParts s calls=before ++ .switchNow r::after →
      HotSwitch (before.foldl Session.next s) r := by
  intro h
  let round : Round := ⟨fun _ => fromSecs 101,fun _ => webtunnelUp⟩
  have hswitch := h .new ["webtunnel"] (.new ⟨"direct-ip",0,0⟩ [⟨"webtunnel",0,0⟩]) (.new 8)
    [.warmStandbys fun _ => webtunnelUp,.switchNow round]
    [.warmStandbys fun _ => webtunnelUp] round [] rfl
  obtain ⟨w,-,hfastest,-,-,hest,-⟩ := hswitch "direct-ip" "webtunnel" 0 0 (by decide +kernel)
  have hw : (some w).map WarmStandby.warmedAt=some (fromSecs 100) := by
    rw [← hfastest]
    decide +kernel
  have hzero : w.warmedAt=0 := by
    rw [← hest]
    decide +kernel
  simp [hzero,fromSecs] at hw

structure Disciplined (s : Session) : Prop where
  bound : s.controller.warm.length ≤ maxWarmStandbys
  distinct : (s.controller.warm.map WarmStandby.name).Nodup
  inactive : s.controller.bridge.active.name∉s.controller.warm.map WarmStandby.name
  moves : ∀ report∈s.reports, report.Moves

/- The candidates that warm_standbys has room for come up under different names, and a switch
   without a fresh standby does not come up under the name of the active transport. -/
def Orderly (s : Session) : Part → Prop
  | .warmStandbys attempts =>
    (((s.controller.ready attempts).take (maxWarmStandbys-s.controller.warm.length)).map
      WarmStandby.name).Nodup
  | .switchNow r => keepFresh s.controller.warm r.clock=[] →
    ∀ conn, s.controller.firstUp r.attempts=some conn →
      conn.transportName≠s.controller.bridge.active.name
  | _ => True

theorem ready_name {c : SeamlessController} {attempts : Nat → Attempt} (h : w∈c.ready attempts) :
    w.name≠c.bridge.active.name ∧ w.name∉c.warm.map WarmStandby.name := by
  obtain ⟨visit,-,hw⟩ := mem_filterMap.mp h
  unfold standbyOf at hw
  split at hw
  next => cases hw
  next hname =>
    obtain ⟨conn,-,rfl⟩ := Option.map_eq_some_iff.mp hw
    exact not_or.mp hname

section
variable {s : Session}

theorem Disciplined.expireStale (h : Disciplined s) (clock : Nat → Instant) :
    Disciplined (s.next (.expireStale clock)) where
  bound := (keepFresh_sublist s.controller.warm clock).length_le.trans h.bound
  distinct := h.distinct.sublist ((keepFresh_sublist s.controller.warm clock).map _)
  inactive := fun hmem =>
    h.inactive (((keepFresh_sublist s.controller.warm clock).map _).subset hmem)
  moves := h.moves

theorem Disciplined.warmStandbys_iff (h : Disciplined s) (attempts : Nat → Attempt) :
    Disciplined (s.next (.warmStandbys attempts)) ↔ Orderly s (.warmStandbys attempts) := by
  have hwarm : (s.next (.warmStandbys attempts)).controller.warm=s.controller.warm ++
      (s.controller.ready attempts).take (maxWarmStandbys-s.controller.warm.length) :=
    s.controller.warmStandbys_warm attempts
  constructor
  · intro hnext
    have hdistinct := hnext.distinct
    rw [hwarm,map_append] at hdistinct
    exact hdistinct.of_append_right
  · intro hok
    constructor
    · rw [hwarm,length_append,length_take]
      have hbound := h.bound
      omega
    · rw [hwarm,map_append]
      refine h.distinct.append hok fun name hold hnew => ?_
      obtain ⟨w,hw,rfl⟩ := mem_map.mp hnew
      exact (ready_name (mem_of_mem_take hw)).2 hold
    · rw [hwarm,map_append]
      intro hmem
      cases mem_append.mp hmem with
      | inl hold => exact h.inactive hold
      | inr hnew =>
        obtain ⟨w,hw,hname⟩ := mem_map.mp hnew
        exact (ready_name (mem_of_mem_take hw)).1 hname
    · exact h.moves

theorem moves_append_iff (h : ∀ report∈s.reports, report.Moves) (action : ContinuityAction) :
    (∀ report∈s.reports++[action], report.Moves) ↔ action.Moves := by
  constructor
  · intro hall
    exact hall action (by simp)
  · intro haction report hmem
    cases mem_append.mp hmem with
    | inl hold => exact h report hold
    | inr hnew =>
      rw [mem_singleton.mp hnew]
      exact haction

/-- A standby that is spent leaves standbys under other names only. -/
theorem Disciplined.switchHot (h : Disciplined s) {r : Round} {w : WarmStandby}
    {others : List WarmStandby}
    (hspent : takeFastest (keepFresh s.controller.warm r.clock)=some (w, others))
    (hot : s.controller.SpendsHot r w others) : Disciplined (s.next (.switchNow r)) := by
  have hkept := keepFresh_sublist s.controller.warm r.clock
  have hperm := takeFastest_perm hspent
  have hnames : ((w::others).map WarmStandby.name).Nodup :=
    (hperm.map WarmStandby.name).nodup_iff.mp (h.distinct.sublist (hkept.map _))
  rw [map_cons,nodup_cons] at hnames
  have hactive : (s.next (.switchNow r)).controller.bridge.active.name=w.name := by
    simp only [Session.next,hot.active,FailoverBridge.first_getD_name]
  have hwarm : (s.next (.switchNow r)).controller.warm = others := hot.warm
  constructor
  · rw [hwarm]
    have hlen := hperm.length_eq
    have hle := hkept.length_le
    have hbound := h.bound
    rw [length_cons] at hlen
    omega
  · rw [hwarm]
    exact hnames.2
  · rw [hwarm,hactive]
    exact hnames.1
  · obtain ⟨frames,hreport⟩ := hot.reports
    refine (moves_append_iff h.moves (s.controller.switchNow r).2).mpr ?_
    rw [hreport]
    intro hsame
    apply h.inactive
    have hmem : w∈s.controller.warm :=
      hkept.subset (hperm.mem_iff.mpr mem_cons_self)
    exact hsame ▸ mem_map_of_mem hmem

theorem Disciplined.switchCold_iff (h : Disciplined s) {r : Round}
    (hnone : keepFresh s.controller.warm r.clock=[]) (cold : s.controller.SwitchesCold r) :
    Disciplined (s.next (.switchNow r)) ↔ Orderly s (.switchNow r) := by
  have hwarm : (s.next (.switchNow r)).controller.warm=[] := cold.warm
  have hmoves : Disciplined (s.next (.switchNow r)) ↔ (s.controller.switchNow r).2.Moves := by
    rw [← moves_append_iff h.moves]
    constructor
    · exact fun hnext => hnext.moves
    · intro hmoves
      constructor
      · simp [hwarm]
      · simp [hwarm]
      · simp [hwarm]
      · exact hmoves
  rw [hmoves]
  obtain ⟨conn,frames,cost,hup,hreport⟩ | ⟨hup,preserved,hreport⟩ := cold.reports
  · rw [hreport]
    constructor
    · intro hne _ conn' hup'
      obtain rfl : conn=conn' := by simpa [hup] using hup'
      exact Ne.symm hne
    · intro hok
      exact Ne.symm (hok hnone conn hup)
  · rw [hreport]
    exact iff_of_true trivial fun _ conn hconn => by simp [hup] at hconn

/-- A part keeps the discipline exactly when it is orderly. -/
theorem Disciplined.next_iff (h : Disciplined s) (part : Part) :
    Disciplined (s.next part) ↔ Orderly s part := by
  cases part with
  | observe sample => exact iff_of_true ⟨h.bound,h.distinct,h.inactive,h.moves⟩ trivial
  | expireStale clock => exact iff_of_true (h.expireStale clock) trivial
  | warmStandbys attempts => exact h.warmStandbys_iff attempts
  | switchNow r =>
    obtain ⟨w,others,hspent,hot⟩ | ⟨hnone,cold⟩ := s.controller.switchNow_cases r
    · refine iff_of_true (h.switchHot hspent hot) fun hnone => ?_
      rw [takeFastest_eq_none.mpr hnone] at hspent
      cases hspent
    · exact h.switchCold_iff hnone cold
  | addStandby handle => exact iff_of_true ⟨h.bound,h.distinct,h.inactive,h.moves⟩ trivial
end

/-- Along every run, the standbys are few, under different names, none of them under the name
of the active transport, and no switch goes from a transport to itself, exactly when every
warming and every cold switch meets answers under names that are new. -/
theorem warm_discipline_iff (forecaster : DpiForecaster) (candidates : List String)
    (bridge : FailoverBridge) (replay : RingBufferReplay) (calls : List Call) :
    let s := start (.new forecaster candidates bridge replay)
    (∀ before after, runParts s calls=before++after →
      Disciplined (before.foldl Session.next s)) ↔
    ∀ before part after, runParts s calls=before++part::after →
      Orderly (before.foldl Session.next s) part := by
  refine foldl_along_iff (fun _ => True) (fun _ _ _ => trivial) (fun s part _ h => h.next_iff part)
    _ trivial ?_
  constructor
  · exact Nat.zero_le _
  · exact nodup_nil
  · exact not_mem_nil
  · exact fun report h => absurd h not_mem_nil

/-- Two candidates named webtunnel are both warmed by one call. -/
theorem name_warmed_twice : ¬ ∀ (forecaster : DpiForecaster) (candidates : List String)
    (bridge : FailoverBridge) (replay : RingBufferReplay) (calls : List Call),
    let s := start (.new forecaster candidates bridge replay)
    ∀ before after, runParts s calls=before++after →
      Disciplined (before.foldl Session.next s) := by
  intro h
  have hnames := (h .new ["webtunnel", "webtunnel"] (.new ⟨"direct-ip",0,0⟩ []) (.new 8)
    [.warmStandbys fun _ => webtunnelUp] [.warmStandbys fun _ => webtunnelUp] [] rfl).distinct
  revert hnames
  decide +kernel

end AetherX.Seamless
