import Mathlib.Data.List.AList
import AetherX.Supervisor

/-! Migration of QUIC connections between network paths, against the history of the
validations: which target is being probed, which one was the last to be validated. -/
namespace AetherX.QuicMigration
open Supervisor Machine

structure NetworkPath where
  localAddr : String
  remoteAddr : String
  rttMs : Nat
  validated : Bool
  deriving DecidableEq

def NetworkPath.new (localAddr remoteAddr : String) : NetworkPath :=
  ⟨localAddr,remoteAddr,0,false⟩

/- A path is an address pair; the other two fields are measurements of it. -/
def NetworkPath.endpoints (path : NetworkPath) : String × String :=
  (path.localAddr, path.remoteAddr)

inductive MigrationState where
  | stable
  | pathValidation
  | migrated
  | failed
  deriving DecidableEq

inductive QuicProtocol where
  | tuicV5
  | hysteria2
  deriving DecidableEq

structure QuicConnection where
  connId : String
  protocol : QuicProtocol
  currentPath : NetworkPath
  state : MigrationState
  lastMigration : Option Instant
  migrationCount : Nat

namespace QuicConnection
def new (connId : String) (protocol : QuicProtocol) (initialPath : NetworkPath) : QuicConnection :=
  ⟨connId,protocol,initialPath,.stable,none,0⟩

def startPathValidation (c : QuicConnection) (newPath : NetworkPath) : QuicConnection × Bool :=
  if c.state = .pathValidation then (c, false)
  else ({ c with state := .pathValidation, currentPath := newPath }, true)

def completeValidation (c : QuicConnection) (success : Bool) (rttMs : Nat) (now : Instant) :
    QuicConnection :=
  if success then
    { c with
      currentPath := { c.currentPath with validated := true, rttMs := rttMs }
      state := .migrated
      lastMigration := some now
      migrationCount := c.migrationCount+1 }
  else { c with state := .failed }

def stabilize (c : QuicConnection) : QuicConnection :=
  if c.state = .migrated then { c with state := .stable }
  else if c.state = .failed then { c with state := .stable }
  else c

def canMigrate (c : QuicConnection) : Bool := c.state = .stable

end QuicConnection

inductive MigrationOutcome where
  | validationStarted
  | alreadyMigrating
  | notFound
  | failed
  deriving DecidableEq

structure QuicConnectionSnapshot where
  connId : String
  protocol : QuicProtocol
  state : MigrationState
  currentPath : NetworkPath
  migrationCount : Nat
  deriving DecidableEq

structure QuicMigrationManager where
  connections : AList fun _ : String => QuicConnection

namespace QuicMigrationManager
def register (m : QuicMigrationManager) (conn : QuicConnection) : QuicMigrationManager :=
  ⟨m.connections.insert conn.connId conn⟩

def store (m : QuicMigrationManager) (connId : String) (conn : QuicConnection) :
    QuicMigrationManager :=
  ⟨m.connections.insert connId conn⟩

def migrate (m : QuicMigrationManager) (connId : String) (newPath : NetworkPath) :
    QuicMigrationManager × MigrationOutcome :=
  match m.connections.lookup connId with
  | none => (m, .notFound)
  | some conn =>
    if !conn.canMigrate then (m, .alreadyMigrating)
    else
      let (conn, started) := conn.startPathValidation newPath
      (m.store connId conn, if started then .validationStarted else .failed)

def completeValidation (m : QuicMigrationManager) (connId : String) (success : Bool) (rttMs : Nat)
    (now : Instant) : QuicMigrationManager × Bool :=
  match m.connections.lookup connId with
  | none => (m, false)
  | some conn => (m.store connId (conn.completeValidation success rttMs now), true)

def stabilize (m : QuicMigrationManager) (connId : String) : QuicMigrationManager × Bool :=
  match m.connections.lookup connId with
  | none => (m, false)
  | some conn => (m.store connId conn.stabilize, true)

def get (m : QuicMigrationManager) (connId : String) : Option QuicConnectionSnapshot :=
  (m.connections.lookup connId).map fun c =>
    ⟨c.connId,c.protocol,c.state,c.currentPath,c.migrationCount⟩

end QuicMigrationManager

inductive Call where
  | migrate (connId : String) (newPath : NetworkPath)
  | completeValidation (connId : String) (success : Bool) (rttMs : Nat) (now : Instant)
  | stabilize (connId : String)

def Call.connId : Call → String
  | .migrate connId _ => connId
  | .completeValidation connId _ _ _ => connId
  | .stabilize connId => connId

/- What the calls on one connection and their outcomes amount to: the target of the
validation in progress, the path settled on, the validations that succeeded. -/
structure History where
  probing : Option NetworkPath
  settled : NetworkPath
  successes : Nat

def History.start (initialPath : NetworkPath) : History := ⟨none,initialPath,0⟩

def History.complete (h : History) (success : Bool) : History :=
  match h.probing with
  | none => h
  | some target => if success then ⟨none,target,h.successes+1⟩ else { h with probing := none }

structure Session where
  manager : QuicMigrationManager
  history : History

def Session.next (id : String) (s : Session) : Call → Session
  | .migrate connId newPath =>
    let (manager, outcome) := s.manager.migrate connId newPath
    ⟨manager,if connId=id ∧ outcome = .validationStarted then
      { s.history with probing := some newPath } else s.history⟩
  | .completeValidation connId success rttMs now =>
    ⟨(s.manager.completeValidation connId success rttMs now).1,
      if connId=id then s.history.complete success else s.history⟩
  | .stabilize connId => ⟨(s.manager.stabilize connId).1,s.history⟩

def session (id : String) (protocol : QuicProtocol) (initialPath : NetworkPath)
    (m : QuicMigrationManager) (calls : List Call) : Session :=
  calls.foldl (Session.next id) ⟨m.register (.new id protocol initialPath),.start initialPath⟩

/-- Outside a validation the connection is on the path it settled on, and it counts the
validations that succeeded. -/
def Settled (id : String) (s : Session) : Prop :=
  ∃ c, s.manager.get id=some c ∧
    (c.state ≠ .pathValidation → c.currentPath.endpoints=s.history.settled.endpoints) ∧
    c.migrationCount=s.history.successes

/- A success is reported only for a validation in progress, and a failure ends one only if
the target was the path settled on already. -/
def Orderly (id : String) (s : Session) : Call → Prop
  | .completeValidation connId success _ _ => connId=id →
    if success then s.history.probing.isSome
    else ∀ target∈s.history.probing, target.endpoints=s.history.settled.endpoints
  | _ => True

/-- The manager's record of the connection and the history agree on the validation. -/
structure Tracks (id : String) (s : Session) (c : QuicConnection) : Prop where
  held : s.manager.connections.lookup id=some c
  probing : s.history.probing=if c.state = .pathValidation then some c.currentPath else none

section
variable {id : String} {s : Session} {c : QuicConnection}

theorem lookup_store (m : QuicMigrationManager) (connId : String) (conn : QuicConnection) :
    (m.store connId conn).connections.lookup connId=some conn :=
  AList.lookup_insert _

theorem lookup_store_ne (m : QuicMigrationManager) {connId id : String} (hne : connId≠id)
    (conn : QuicConnection) :
    (m.store connId conn).connections.lookup id=m.connections.lookup id :=
  AList.lookup_insert_ne hne.symm

theorem settled_iff (h : Tracks id s c) :
    Settled id s ↔
      (c.state ≠ .pathValidation → c.currentPath.endpoints=s.history.settled.endpoints) ∧
        c.migrationCount=s.history.successes := by
  simp only [Settled,QuicMigrationManager.get,h.held,Option.map_some,Option.some.injEq,
    exists_eq_left']

theorem next_other (s : Session) {call : Call} (hne : call.connId≠id) :
    (s.next id call).manager.connections.lookup id=s.manager.connections.lookup id ∧
      (s.next id call).history=s.history := by
  cases call with
  | migrate connId newPath =>
    refine ⟨?_,if_neg fun h => hne h.1⟩
    rw [Session.next,QuicMigrationManager.migrate]
    cases hheld : s.manager.connections.lookup connId with
    | none => rfl
    | some c =>
      by_cases hcan : c.canMigrate=true
      · simp only [hcan,Bool.not_true,Bool.false_eq_true,if_false]
        exact lookup_store_ne _ hne _
      · simp only [hcan,Bool.not_false,if_true]
  | completeValidation connId success rttMs now =>
    refine ⟨?_,if_neg hne⟩
    rw [Session.next,QuicMigrationManager.completeValidation]
    cases hheld : s.manager.connections.lookup connId with
    | none => rfl
    | some c => exact lookup_store_ne _ hne _
  | stabilize connId =>
    refine ⟨?_,rfl⟩
    rw [Session.next,QuicMigrationManager.stabilize]
    cases hheld : s.manager.connections.lookup connId with
    | none => rfl
    | some c => exact lookup_store_ne _ hne _

theorem Tracks.migrate (h : Tracks id s c) (newPath : NetworkPath) :
    ∃ c', Tracks id (s.next id (.migrate id newPath)) c' ∧
      (s.next id (.migrate id newPath)).history.settled=s.history.settled ∧
      (s.next id (.migrate id newPath)).history.successes=s.history.successes ∧
      c'.migrationCount=c.migrationCount ∧
      (c'=c ∨ c'.state = .pathValidation) := by
  rw [Session.next,QuicMigrationManager.migrate,h.held]
  by_cases hstable : c.state = .stable
  · -- a stable connection starts to probe, on the new path at once
    have hcan : c.canMigrate=true := decide_eq_true hstable
    have hidle : c.state ≠ .pathValidation := by
      rw [hstable]
      decide
    simp only [hcan,Bool.not_true,Bool.false_eq_true,if_false,
      QuicConnection.startPathValidation,if_neg hidle,if_true,and_self]
    exact ⟨_,⟨lookup_store _ _ _,rfl⟩,trivial,trivial,rfl,Or.inr rfl⟩
  · have hcan : c.canMigrate=false := decide_eq_false hstable
    simp only [hcan,Bool.not_false,if_true,reduceCtorEq,and_false,if_false]
    exact ⟨c,h,trivial,trivial,rfl,Or.inl rfl⟩

theorem Tracks.stabilize (h : Tracks id s c) :
    Tracks id (s.next id (.stabilize id)) c.stabilize ∧
      c.stabilize.currentPath=c.currentPath ∧ c.stabilize.migrationCount=c.migrationCount ∧
      (c.stabilize.state = .pathValidation ↔ c.state = .pathValidation) := by
  have hsame : c.stabilize.currentPath=c.currentPath ∧
      c.stabilize.migrationCount=c.migrationCount ∧
      (c.stabilize.state = .pathValidation ↔ c.state = .pathValidation) := by
    cases hstate : c.state <;> simp [QuicConnection.stabilize,hstate]
  refine ⟨⟨?_,?_⟩,hsame⟩
  · rw [Session.next,QuicMigrationManager.stabilize,h.held]
    exact lookup_store _ _ _
  · refine h.probing.trans ?_
    simp only [hsame.1,hsame.2.2]

theorem Tracks.complete (h : Tracks id s c) (success : Bool) (rttMs : Nat) (now : Instant) :
    Tracks id (s.next id (.completeValidation id success rttMs now))
      (c.completeValidation success rttMs now) := by
  refine ⟨?_,?_⟩
  · rw [Session.next,QuicMigrationManager.completeValidation,h.held]
    exact lookup_store _ _ _
  · have hended : (c.completeValidation success rttMs now).state ≠ .pathValidation := by
      cases success <;> exact nofun
    rw [if_neg hended,Session.next,if_pos rfl,History.complete]
    cases hprobing : s.history.probing with
    | none => exact hprobing
    | some target => cases success <;> rfl

theorem Tracks.step (h : Tracks id s c) (call : Call) : ∃ c', Tracks id (s.next id call) c' := by
  by_cases hid : call.connId=id
  · cases call with
    | migrate connId newPath =>
      obtain rfl : connId=id := hid
      obtain ⟨c',hc',_⟩ := h.migrate newPath
      exact ⟨c',hc'⟩
    | completeValidation connId success rttMs now =>
      obtain rfl : connId=id := hid
      exact ⟨_,h.complete success rttMs now⟩
    | stabilize connId =>
      obtain rfl : connId=id := hid
      exact ⟨_,h.stabilize.1⟩
  · obtain ⟨hlookup,hhistory⟩ := next_other s hid
    exact ⟨c,hlookup.trans h.held,(congrArg History.probing hhistory).trans h.probing⟩

/-- Reporting a success counts, and settles on the current path. -/
theorem Settled.complete_true_iff (h : Tracks id s c) (hs : Settled id s) (rttMs : Nat)
    (now : Instant) :
    Settled id (s.next id (.completeValidation id true rttMs now)) ↔
      s.history.probing.isSome := by
  obtain ⟨_,hcount⟩ := (settled_iff h).mp hs
  have hnext := h.complete true rttMs now
  rw [settled_iff hnext,Session.next,if_pos rfl,History.complete]
  by_cases hstate : c.state = .pathValidation
  · have hprobing := h.probing.trans (if_pos hstate)
    rw [hprobing]
    exact iff_of_true ⟨fun _ => rfl,congrArg Nat.succ hcount⟩ rfl
  · have hprobing := h.probing.trans (if_neg hstate)
    rw [hprobing]
    refine iff_of_false (fun hsettled => ?_) (by decide)
    have hoff : c.migrationCount+1=s.history.successes := hsettled.2
    omega

/-- Reporting a failure leaves the connection on the path it was probing. -/
theorem Settled.complete_false_iff (h : Tracks id s c) (hs : Settled id s) (rttMs : Nat)
    (now : Instant) :
    Settled id (s.next id (.completeValidation id false rttMs now)) ↔
      ∀ target∈s.history.probing, target.endpoints=s.history.settled.endpoints := by
  obtain ⟨hpath,hcount⟩ := (settled_iff h).mp hs
  have hnext := h.complete false rttMs now
  rw [settled_iff hnext,Session.next,if_pos rfl,History.complete]
  by_cases hstate : c.state = .pathValidation
  · have hprobing := h.probing.trans (if_pos hstate)
    simp only [hprobing,Bool.false_eq_true,if_false,Option.mem_some_iff,forall_eq']
    constructor
    · intro hsettled
      exact hsettled.1 nofun
    · intro hsame
      exact ⟨fun _ => hsame,hcount⟩
  · have hprobing := h.probing.trans (if_neg hstate)
    simp only [hprobing,Option.not_mem_none,false_implies,implies_true,iff_true]
    exact ⟨fun _ => hpath hstate,hcount⟩

theorem Settled.step_iff (h : Tracks id s c) (hs : Settled id s) (call : Call) :
    Settled id (s.next id call) ↔ Orderly id s call := by
  obtain ⟨hpath,hcount⟩ := (settled_iff h).mp hs
  by_cases hid : call.connId=id
  · cases call with
    | migrate connId newPath =>
      obtain rfl : connId=id := hid
      obtain ⟨c',hc',hsettled,hsuccesses,hsame,hcase⟩ := h.migrate newPath
      refine iff_of_true ((settled_iff hc').mpr ⟨fun hidle => ?_,?_⟩) trivial
      · rcases hcase with rfl | hprobing
        · rw [hsettled]
          exact hpath hidle
        · exact absurd hprobing hidle
      · rw [hsame,hsuccesses,hcount]
    | completeValidation connId success rttMs now =>
      obtain rfl : connId=id := hid
      simp only [Orderly,true_implies]
      cases success with
      | true => exact hs.complete_true_iff h rttMs now
      | false => exact hs.complete_false_iff h rttMs now
    | stabilize connId =>
      obtain rfl : connId=id := hid
      obtain ⟨hnext,hsame,hkept,hstate⟩ := h.stabilize
      refine iff_of_true ((settled_iff hnext).mpr ⟨fun hidle => ?_,hkept.trans hcount⟩) trivial
      rw [hsame]
      exact hpath (mt hstate.mpr hidle)
  · obtain ⟨hlookup,hhistory⟩ := next_other s hid
    have hsettled : Settled id (s.next id call) := by
      rw [Settled,QuicMigrationManager.get,hlookup,hhistory]
      exact hs
    refine iff_of_true hsettled ?_
    cases call with
    | completeValidation connId success rttMs now => exact fun heq => absurd heq hid
    | _ => trivial
end

theorem tracks_registered (id : String) (protocol : QuicProtocol) (initialPath : NetworkPath)
    (m : QuicMigrationManager) :
    Tracks id ⟨m.register (.new id protocol initialPath),.start initialPath⟩
      (.new id protocol initialPath) :=
  ⟨AList.lookup_insert _,rfl⟩

/-- A registered connection stays on the path it settled on, with the right count, all along
a sequence of calls exactly when every one of the calls is orderly. -/
theorem settled_along_iff (id : String) (protocol : QuicProtocol) (initialPath : NetworkPath)
    (m : QuicMigrationManager) (calls : List Call) :
    (∀ before after, calls=before++after →
      Settled id (session id protocol initialPath m before)) ↔
    ∀ before call after, calls=before++call::after →
      Orderly id (session id protocol initialPath m before) call := by
  have hstart := tracks_registered id protocol initialPath m
  refine foldl_along_iff (fun s => ∃ c, Tracks id s c) (fun s call h => ?_) (fun s call h hs => ?_)
    calls ⟨_,hstart⟩ ((settled_iff hstart).mpr ⟨fun _ => rfl,rfl⟩)
  · obtain ⟨c,hc⟩ := h
    exact hc.step call
  · obtain ⟨c,hc⟩ := h
    exact hs.step_iff hc call

def wifi : NetworkPath := .new "192.168.1.1:1234" "1.2.3.4:443"
def mobile : NetworkPath := .new "10.0.0.1:5678" "1.2.3.4:443"

theorem settled_along_iff_success :
    Settled "c" (session "c" .hysteria2 wifi ⟨∅⟩
      [.migrate "c" mobile,.completeValidation "c" true 20 7,.stabilize "c"]) := by
  refine (settled_along_iff "c" .hysteria2 wifi ⟨∅⟩ _).mpr ?_ _ [] (List.append_nil _).symm
  refine steps_along_cons.mpr ⟨trivial,steps_along_cons.mpr ⟨fun _ => ?_,
    steps_along_cons.mpr ⟨trivial,steps_along_nil⟩⟩⟩
  -- the completion comes while mobile is being probed
  decide +kernel

/-- A migration that fails leaves the connection on the path that could not be validated. -/
theorem failed_migration_moves_path :
    ¬ ∀ (id : String) (protocol : QuicProtocol) (initialPath : NetworkPath)
      (m : QuicMigrationManager) (calls : List Call),
      Settled id (session id protocol initialPath m calls) := by
  intro h
  obtain ⟨c,hc,hpath,_⟩ := h "c" .hysteria2 wifi ⟨∅⟩
    [.migrate "c" mobile,.completeValidation "c" false 0 7]
  have hheld : (session "c" .hysteria2 wifi ⟨∅⟩
      [.migrate "c" mobile,.completeValidation "c" false 0 7]).manager.get "c" =
      some ⟨"c",.hysteria2,.failed,mobile,0⟩ := by decide +kernel
  rw [hheld,Option.some.injEq] at hc
  subst hc
  exact absurd (hpath nofun) (by decide +kernel)

end AetherX.QuicMigration
