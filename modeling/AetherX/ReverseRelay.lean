import Mathlib.Data.List.AList
import AetherX.FallbackTransport

/-! The relay engine: edges, their reconnection, and the life of their reverse tunnels. -/
namespace AetherX.ReverseRelay
open Supervisor FallbackTransport Machine

structure EdgeRelay where
  id : String
  region : String
  isp : String
  lastSeen : Instant
  healthy : Bool
  activeTransport : Option FallbackKind

def EdgeRelay.new (id region isp : String) (now : Instant) : EdgeRelay :=
  ⟨id,region,isp,now,true,none⟩

def fromMillis (n : Nat) : Duration := n*1000000

inductive ConnectResult where
  | connected (transport : FallbackKind) (frontSni : String)
  | failedRetry (backoff : Duration) (frontSni : String)
  | edgeNotFound

/- The outer SNI that the fronting engine picks for an address is a function of the address:
   no call of the engine changes its configurations. -/
structure ReverseRelayEngine where
  edges : AList fun _ : String => EdgeRelay
  tunnelMgr : ReverseTunnelManager
  outerSni : String → Option String
  reconnectAttempts : AList fun _ : String => Nat
  totalReconnects : Nat

/- A map may be walked in any order. -/
structure KeyOrder where
  arrange : List String → List String
  perm : ∀ ids, (arrange ids).Perm ids

namespace ReverseRelayEngine
def new (outerSni : String → Option String) : ReverseRelayEngine := ⟨∅,.new,outerSni,∅,0⟩

def registerEdge (e : ReverseRelayEngine) (relay : EdgeRelay) : ReverseRelayEngine :=
  { e with edges := e.edges.insert relay.id relay }

def modifyEdge (e : ReverseRelayEngine) (id : String) (f : EdgeRelay → EdgeRelay) :
    ReverseRelayEngine :=
  match e.edges.lookup id with
  | some edge => { e with edges := e.edges.insert id (f edge) }
  | none => e

def heartbeat (e : ReverseRelayEngine) (id : String) (healthy : Bool) (now : Instant) :
    ReverseRelayEngine :=
  e.modifyEdge id fun edge => { edge with lastSeen := now, healthy := healthy }

def recordFailedAttempt (e : ReverseRelayEngine) (id : String) : ReverseRelayEngine × Duration :=
  let count := (e.reconnectAttempts.lookup id).getD 0+1
  let base := 2^min count 6
  let jitter := count*137%500
  ({ e with
    reconnectAttempts := e.reconnectAttempts.insert id count
    totalReconnects := e.totalReconnects+1 }, fromMillis (base*1000+jitter))

def connectEdge (e : ReverseRelayEngine) (id coreAddr : String) (now : Instant) :
    ReverseRelayEngine × ConnectResult :=
  if (e.edges.lookup id).isNone then (e, .edgeNotFound)
  else
    let frontSni := (e.outerSni coreAddr).getD "www.digikala.com"
    match e.tunnelMgr.autoFailover id coreAddr now with
    | (tunnelMgr, some kind) =>
      let e := modifyEdge { e with tunnelMgr := tunnelMgr } id fun edge =>
        { edge with activeTransport := some kind, healthy := true, lastSeen := now }
      ({ e with reconnectAttempts := e.reconnectAttempts.erase id }, .connected kind frontSni)
    | (tunnelMgr, none) =>
      let (e, backoff) := recordFailedAttempt { e with tunnelMgr := tunnelMgr } id
      (e, .failedRetry backoff frontSni)

def handleDisconnect (e : ReverseRelayEngine) (id : String) : ReverseRelayEngine :=
  let e := modifyEdge { e with tunnelMgr := (e.tunnelMgr.closeTunnel id).1 } id fun edge =>
    { edge with healthy := false, activeTransport := none }
  match e.tunnelMgr.fallbackChain.head? with
  | some best => { e with tunnelMgr := e.tunnelMgr.recordFailure best }
  | none => e

def staleThreshold : Duration := fromSecs 120

def unhealthy (e : ReverseRelayEngine) (order : KeyOrder) (now : Instant) : List String :=
  (order.arrange e.edges.keys).filter fun id => (e.edges.lookup id).any fun edge =>
    !edge.healthy || staleThreshold < now-edge.lastSeen

end ReverseRelayEngine

inductive Call where
  | registerEdge (relay : EdgeRelay)
  | heartbeat (id : String) (healthy : Bool) (now : Instant)
  | connectEdge (id coreAddr : String) (now : Instant)
  | handleDisconnect (id : String)
  | tick (order : KeyOrder) (coreAddr : String) (now : Instant) (at_ : String → Instant)
  | relayBytes (id : String) (bytes : Nat)

/- The engine with the edges that were disconnected and have not been connected since. -/
structure Session where
  engine : ReverseRelayEngine
  severed : List String

namespace Session
def connect (coreAddr : String) (at_ : String → Instant) (s : Session) (id : String) : Session :=
  match s.engine.connectEdge id coreAddr (at_ id) with
  | (engine, .connected _ _) => ⟨engine,s.severed.filter (· ≠ id)⟩
  | (engine, _) => ⟨engine,s.severed⟩

def next (s : Session) : Call → Session
  | .registerEdge relay => { s with engine := s.engine.registerEdge relay }
  | .heartbeat id healthy now => { s with engine := s.engine.heartbeat id healthy now }
  | .connectEdge id coreAddr now => s.connect coreAddr (fun _ => now) id
  | .handleDisconnect id => ⟨s.engine.handleDisconnect id,id::s.severed⟩
  | .tick order coreAddr now at_ =>
    (s.engine.unhealthy order now).foldl (connect coreAddr at_) s
  | .relayBytes id bytes =>
    { s with engine := { s.engine with tunnelMgr := (s.engine.tunnelMgr.relayBytes id bytes).1 } }

def activeFor (s : Session) (id : String) : Nat := s.engine.tunnelMgr.activeFor id

end Session

def session (outerSni : String → Option String) (calls : List Call) : Session :=
  calls.foldl Session.next ⟨.new outerSni,[]⟩

/-- An edge has one active tunnel if its transport is set and none otherwise; after a disconnect
it has none, and relays nothing, until it is connected again. -/
structure Lifecycle (s : Session) : Prop where
  atMostOne : ∀ id, s.activeFor id≤1
  transport : ∀ id edge, s.engine.edges.lookup id=some edge →
    (edge.activeTransport.isSome=true ↔ s.activeFor id≠0)
  severed : ∀ id∈s.severed, s.activeFor id=0 ∧
    ∀ bytes, (s.engine.tunnelMgr.relayBytes id bytes).2=false

/- A registered edge is connected, while some transport is usable, only without a tunnel. -/
def OrderlyConnect (s : Session) (id : String) : Prop :=
  (s.engine.edges.lookup id).isSome → s.engine.tunnelMgr.usable=true → s.activeFor id=0

def OrderlyConnects (coreAddr : String) (at_ : String → Instant) : List String → Session → Prop
  | [], _ => True
  | id::ids, s => OrderlyConnect s id ∧
    OrderlyConnects coreAddr at_ ids (s.connect coreAddr at_ id)

/-- An edge is registered with a transport exactly if it has a tunnel, connected only without
one, and disconnected only while its active tunnel, if any, is the first one listed for it. -/
def Orderly (s : Session) : Call → Prop
  | .registerEdge relay => relay.activeTransport.isSome=true ↔ s.activeFor relay.id≠0
  | .connectEdge id _ _ => OrderlyConnect s id
  | .handleDisconnect id => s.activeFor id≠0 →
    (s.engine.tunnelMgr.firstFor id).any ReverseTunnel.active=true
  | .tick order coreAddr now at_ =>
    OrderlyConnects coreAddr at_ (s.engine.unhealthy order now) s
  | _ => True

section
variable {s t : Session} {coreAddr : String} {at_ : String → Instant} {id : String}

theorem lookup_modifyEdge (e : ReverseRelayEngine) (id : String) (f : EdgeRelay → EdgeRelay)
    (id' : String) :
    (e.modifyEdge id f).edges.lookup id' =
      if id'=id then (e.edges.lookup id).map f else e.edges.lookup id' := by
  rw [ReverseRelayEngine.modifyEdge]
  cases hlookup : e.edges.lookup id with
  | none =>
    split_ifs with hid
    · rw [hid,hlookup]
      rfl
    · rfl
  | some edge =>
    split_ifs with hid
    · rw [hid]
      exact AList.lookup_insert _
    · exact AList.lookup_insert_ne hid

theorem modifyEdge_tunnelMgr (e : ReverseRelayEngine) (id : String) (f : EdgeRelay → EdgeRelay) :
    (e.modifyEdge id f).tunnelMgr=e.tunnelMgr := by
  rw [ReverseRelayEngine.modifyEdge]
  cases e.edges.lookup id <;> rfl

theorem lifecycle_of_active (hone : ∀ id, s.activeFor id≤1)
    (htransport : ∀ id edge, s.engine.edges.lookup id=some edge →
      (edge.activeTransport.isSome=true ↔ s.activeFor id≠0))
    (hsevered : ∀ id∈s.severed, s.activeFor id=0) : Lifecycle s :=
  ⟨hone,htransport,fun id hid => ⟨hsevered id hid,
    fun bytes => (relayBytes_eq_false_iff _ id bytes).mpr (hsevered id hid)⟩⟩

/- What counts of a session for the life of its tunnels. -/
theorem Lifecycle.congr (h : Lifecycle s) (hedges : t.engine.edges=s.engine.edges)
    (hmgr : t.engine.tunnelMgr=s.engine.tunnelMgr) (hsevered : t.severed=s.severed) :
    Lifecycle t := by
  have hactive : ∀ id, t.activeFor id=s.activeFor id := by
    intro id
    rw [Session.activeFor,hmgr]
    rfl
  refine lifecycle_of_active (fun id => ?_) (fun id edge hedge => ?_) (fun id hid => ?_)
  · rw [hactive]
    exact h.atMostOne id
  · rw [hedges] at hedge
    rw [hactive]
    exact h.transport id edge hedge
  · rw [hsevered] at hid
    rw [hactive]
    exact (h.severed id hid).1

/-- What a connection changes: one more active tunnel, and the transport of its edge. -/
structure Connects (s t : Session) (id : String) : Prop where
  registered : (s.engine.edges.lookup id).isSome=true
  usable : s.engine.tunnelMgr.usable=true
  active : ∀ id', t.activeFor id'=s.activeFor id'+if id'=id then 1 else 0
  edge : ∀ edge, t.engine.edges.lookup id=some edge → edge.activeTransport.isSome=true
  others : ∀ id', id'≠id → t.engine.edges.lookup id'=s.engine.edges.lookup id'
  severed : t.severed=s.severed.filter (· ≠ id)

theorem connect_cases (s : Session) (coreAddr : String) (at_ : String → Instant) (id : String) :
    Connects s (s.connect coreAddr at_ id) id ∨
      (¬ ((s.engine.edges.lookup id).isSome=true ∧ s.engine.tunnelMgr.usable=true) ∧
        (s.connect coreAddr at_ id).engine.edges=s.engine.edges ∧
        (s.connect coreAddr at_ id).engine.tunnelMgr=s.engine.tunnelMgr ∧
        (s.connect coreAddr at_ id).severed=s.severed) := by
  rw [Session.connect,ReverseRelayEngine.connectEdge]
  cases hlookup : s.engine.edges.lookup id with
  | none => exact Or.inr ⟨by simp,rfl,rfl,rfl⟩
  | some edge =>
    cases husable : s.engine.tunnelMgr.usable with
    | false =>
      rw [if_neg (by simp)]
      simp only [autoFailover_not_usable _ husable]
      exact Or.inr ⟨by simp,rfl,rfl,trivial⟩
    | true =>
      obtain ⟨kind,hkind⟩ := autoFailover_usable _ husable id coreAddr (at_ id)
      rw [if_neg (by simp)]
      simp only [hkind]
      refine Or.inl ⟨by rw [hlookup]; rfl,husable,fun id' => ?_,fun edge' hedge => ?_,
        fun id' hid => ?_,rfl⟩
      · rw [Session.activeFor,modifyEdge_tunnelMgr]
        exact activeFor_establish ..
      · rw [lookup_modifyEdge,if_pos rfl,Option.map_eq_some_iff] at hedge
        obtain ⟨old,_,rfl⟩ := hedge
        rfl
      · rw [lookup_modifyEdge,if_neg hid]

theorem Lifecycle.connects (h : Lifecycle s) (hc : Connects s t id) (hfree : s.activeFor id=0) :
    Lifecycle t := by
  refine lifecycle_of_active (fun id' => ?_) (fun id' edge hedge => ?_) (fun id' hid => ?_)
  · rw [hc.active]
    split_ifs with hid
    · rw [hid,hfree]
    · exact h.atMostOne id'
  · rw [hc.active]
    by_cases hid : id'=id
    · rw [hid] at hedge
      simp [hc.edge edge hedge,hid]
    · rw [hc.others id' hid] at hedge
      rw [if_neg hid]
      exact h.transport id' edge hedge
  · rw [hc.severed,List.mem_filter,decide_eq_true_eq] at hid
    rw [hc.active,if_neg hid.2]
    exact (h.severed id' hid.1).1

/-- Connecting an edge keeps the lifecycle exactly if that is orderly. -/
theorem Lifecycle.connect_iff (h : Lifecycle s) (coreAddr : String) (at_ : String → Instant)
    (id : String) : Lifecycle (s.connect coreAddr at_ id) ↔ OrderlyConnect s id := by
  rcases connect_cases s coreAddr at_ id with hc | ⟨hnot,hedges,hmgr,hsevered⟩
  · constructor
    · intro h' _ _
      have hone := h'.atMostOne id
      rw [hc.active,if_pos rfl] at hone
      omega
    · intro hok
      exact h.connects hc (hok hc.registered hc.usable)
  · exact iff_of_true (h.congr hedges hmgr hsevered) fun hr hu => absurd ⟨hr,hu⟩ hnot

theorem activeFor_le_connect (s : Session) (coreAddr : String) (at_ : String → Instant)
    (id id' : String) : s.activeFor id'≤(s.connect coreAddr at_ id).activeFor id' := by
  rcases connect_cases s coreAddr at_ id with hc | ⟨_,_,hmgr,_⟩
  · rw [hc.active]
    exact Nat.le_add_right _ _
  · rw [Session.activeFor,Session.activeFor,hmgr]

theorem activeFor_le_connects (coreAddr : String) (at_ : String → Instant) (ids : List String)
    (s : Session) (id' : String) :
    s.activeFor id'≤(ids.foldl (Session.connect coreAddr at_) s).activeFor id' := by
  induction ids generalizing s with
  | nil => exact Nat.le_refl _
  | cons id ids ih => exact Nat.le_trans (activeFor_le_connect s coreAddr at_ id id') (ih _)

/-- A tunnel too many stays, so a tick keeps the lifecycle exactly if all its connections do. -/
theorem Lifecycle.connects_iff (h : Lifecycle s) (ids : List String) :
    Lifecycle (ids.foldl (Session.connect coreAddr at_) s) ↔
      OrderlyConnects coreAddr at_ ids s := by
  induction ids generalizing s with
  | nil => exact iff_of_true h trivial
  | cons id ids ih =>
    rw [List.foldl_cons,OrderlyConnects]
    constructor
    · intro hend
      have hok : OrderlyConnect s id := by
        intro hr hu
        rcases connect_cases s coreAddr at_ id with hc | ⟨hnot,_⟩
        · have hone := hend.atMostOne id
          have hmono := activeFor_le_connects coreAddr at_ ids (s.connect coreAddr at_ id) id
          rw [hc.active,if_pos rfl] at hmono
          omega
        · exact absurd ⟨hr,hu⟩ hnot
      exact ⟨hok,(ih ((h.connect_iff coreAddr at_ id).mpr hok)).mp hend⟩
    · intro hok
      exact (ih ((h.connect_iff coreAddr at_ id).mpr hok.1)).mpr hok.2

theorem Lifecycle.register_iff (h : Lifecycle s) (relay : EdgeRelay) :
    Lifecycle (s.next (.registerEdge relay)) ↔
      (relay.activeTransport.isSome=true ↔ s.activeFor relay.id≠0) := by
  constructor
  · intro h'
    exact h'.transport relay.id relay (AList.lookup_insert _)
  · intro hok
    refine lifecycle_of_active h.atMostOne (fun id edge hedge => ?_) fun id hid => (h.severed id hid).1
    by_cases hid : id=relay.id
    · rw [hid] at hedge
      have hrelay : some relay=some edge := (AList.lookup_insert _).symm.trans hedge
      rw [hid,← Option.some.inj hrelay]
      exact hok
    · have hother : (s.engine.edges.insert relay.id relay).lookup id=some edge := hedge
      rw [AList.lookup_insert_ne hid] at hother
      exact h.transport id edge hother

theorem Lifecycle.heartbeat (h : Lifecycle s) (id : String) (healthy : Bool) (now : Instant) :
    Lifecycle (s.next (.heartbeat id healthy now)) := by
  have hmgr : (s.next (.heartbeat id healthy now)).engine.tunnelMgr=s.engine.tunnelMgr :=
    modifyEdge_tunnelMgr ..
  have hactive : ∀ id', (s.next (.heartbeat id healthy now)).activeFor id'=s.activeFor id' :=
    fun id' => congrArg (fun m => m.activeFor id') hmgr
  refine lifecycle_of_active (fun id' => ?_) (fun id' edge hedge => ?_) (fun id' hid => ?_)
  · rw [hactive]
    exact h.atMostOne id'
  · replace hedge := (lookup_modifyEdge ..).symm.trans hedge
    rw [hactive]
    split_ifs at hedge with hid
    · rw [Option.map_eq_some_iff] at hedge
      obtain ⟨old,hold,rfl⟩ := hedge
      rw [hid]
      exact h.transport id old hold
    · exact h.transport id' edge hedge
  · rw [hactive]
    exact (h.severed id' hid).1

theorem Lifecycle.relay (h : Lifecycle s) (id : String) (bytes : Nat) :
    Lifecycle (s.next (.relayBytes id bytes)) := by
  have hactive : ∀ id', (s.next (.relayBytes id bytes)).activeFor id'=s.activeFor id' :=
    activeFor_relay s.engine.tunnelMgr id bytes
  refine lifecycle_of_active (fun id' => ?_) (fun id' edge hedge => ?_) (fun id' hid => ?_)
  · rw [hactive]
    exact h.atMostOne id'
  · rw [hactive]
    exact h.transport id' edge hedge
  · rw [hactive]
    exact (h.severed id' hid).1

theorem disconnect_active (s : Session) (id id' : String) :
    (s.next (.handleDisconnect id)).activeFor id' =
      (s.engine.tunnelMgr.closeTunnel id).1.activeFor id' := by
  rw [Session.activeFor,Session.next,ReverseRelayEngine.handleDisconnect]
  split
  next best _ =>
    have htunnels : ∀ m : ReverseTunnelManager, (m.recordFailure best).activeFor id' =
        m.activeFor id' := fun _ => rfl
    rw [htunnels,modifyEdge_tunnelMgr]
  next => rw [modifyEdge_tunnelMgr]

theorem disconnect_lookup (s : Session) (id id' : String) :
    (s.next (.handleDisconnect id)).engine.edges.lookup id' =
      if id'=id then (s.engine.edges.lookup id).map fun edge =>
        { edge with healthy := false, activeTransport := none }
      else s.engine.edges.lookup id' := by
  rw [Session.next,ReverseRelayEngine.handleDisconnect]
  split
  next best _ => exact lookup_modifyEdge ..
  next => exact lookup_modifyEdge ..

/-- Disconnecting an edge ends its active tunnel exactly if that is the first one listed. -/
theorem Lifecycle.disconnect_iff (h : Lifecycle s) (id : String) :
    Lifecycle (s.next (.handleDisconnect id)) ↔
      (s.activeFor id≠0 → (s.engine.tunnelMgr.firstFor id).any ReverseTunnel.active=true) := by
  have hclose := activeFor_close s.engine.tunnelMgr id
  have hone := h.atMostOne id
  rw [Session.activeFor] at hone
  constructor
  · intro h' hactive
    have hzero := (h'.severed id List.mem_cons_self).1
    rw [disconnect_active] at hzero
    by_contra hfirst
    rw [hzero,if_neg hfirst] at hclose
    exact hactive hclose.symm
  · intro hok
    have hzero : (s.engine.tunnelMgr.closeTunnel id).1.activeFor id=0 := by
      by_cases hactive : s.engine.tunnelMgr.activeFor id=0
      · omega
      · rw [if_pos (hok hactive)] at hclose
        omega
    have hother : ∀ id', id'≠id →
        (s.next (.handleDisconnect id)).activeFor id'=s.activeFor id' := by
      intro id' hid
      rw [disconnect_active,activeFor_close_ne _ hid]
      rfl
    refine lifecycle_of_active (fun id' => ?_) (fun id' edge hedge => ?_) (fun id' hmem => ?_)
    · by_cases hid : id'=id
      · rw [hid,disconnect_active,hzero]
        exact Nat.zero_le _
      · rw [hother id' hid]
        exact h.atMostOne id'
    · rw [disconnect_lookup] at hedge
      by_cases hid : id'=id
      · rw [if_pos hid,Option.map_eq_some_iff] at hedge
        obtain ⟨old,_,rfl⟩ := hedge
        rw [hid,disconnect_active,hzero]
        simp
      · rw [if_neg hid] at hedge
        rw [hother id' hid]
        exact h.transport id' edge hedge
    · by_cases hid : id'=id
      · rw [hid,disconnect_active,hzero]
      · rw [hother id' hid]
        exact (h.severed id' ((List.mem_cons.mp hmem).resolve_left hid)).1

theorem Lifecycle.step_iff (h : Lifecycle s) (call : Call) :
    Lifecycle (s.next call) ↔ Orderly s call := by
  cases call with
  | registerEdge relay => exact h.register_iff relay
  | heartbeat id healthy now => exact iff_of_true (h.heartbeat id healthy now) trivial
  | connectEdge id coreAddr now => exact h.connect_iff coreAddr (fun _ => now) id
  | handleDisconnect id => exact h.disconnect_iff id
  | tick order coreAddr now at_ => exact h.connects_iff (s.engine.unhealthy order now)
  | relayBytes id bytes => exact iff_of_true (h.relay id bytes) trivial
end

/-- The tunnels of an engine keep their lifecycle all along a sequence of calls exactly when
every one of the calls is orderly. -/
theorem lifecycle_along_iff (outerSni : String → Option String) (calls : List Call) :
    (∀ before after, calls=before++after → Lifecycle (session outerSni before)) ↔
      ∀ before call after, calls=before++call::after →
        Orderly (session outerSni before) call := by
  have hnew : Lifecycle ⟨.new outerSni,[]⟩ :=
    lifecycle_of_active (fun _ => Nat.zero_le _) (by simp [ReverseRelayEngine.new]) (by simp)
  exact foldl_along_iff (fun _ => True) (fun _ _ _ => trivial)
    (fun s call _ h => h.step_iff call) calls trivial hnew

def edge : EdgeRelay := .new "tehran-01" "tehran" "MCI" 0

def cycle : List Call :=
  [.connectEdge "tehran-01" "core.example:443" 1,.handleDisconnect "tehran-01"]

theorem lifecycle_along_iff_one_cycle :
    Lifecycle (session (fun _ => none) (.registerEdge edge::cycle)) := by
  refine (lifecycle_along_iff (fun _ => none) _).mpr ?_ _ [] (List.append_nil _).symm
  refine steps_along_cons.mpr ⟨?_,steps_along_cons.mpr ⟨?_,steps_along_cons.mpr ⟨?_,
    steps_along_nil⟩⟩⟩
  · exact iff_of_false (by decide) (by decide)
  · intro _ _
    decide +kernel
  · intro _
    decide +kernel

/-- In the second cycle the tunnel that was closed in the first one is closed again. -/
theorem second_tunnel_stays_active :
    ¬ ∀ (outerSni : String → Option String) (calls : List Call),
      Lifecycle (session outerSni calls) := by
  intro h
  have hcycles := h (fun _ => none) (.registerEdge edge::(cycle++cycle))
  have hactive : (session (fun _ => none) (.registerEdge edge::(cycle++cycle))).activeFor
      "tehran-01" = 1 := by decide +kernel
  have hsevered : "tehran-01" ∈
      (session (fun _ => none) (.registerEdge edge::(cycle++cycle))).severed := by
    decide +kernel
  have hzero := (hcycles.severed "tehran-01" hsevered).1
  rw [hactive] at hzero
  exact absurd hzero (by decide)

end AetherX.ReverseRelay
