import Mathlib.Data.List.Lookmap
import Mathlib.Data.List.Sort
import AetherX.Supervisor

/-! The fallback transports with their health, and the reverse tunnels made over them. The
list of tunnels only grows: a tunnel that is closed stays in it, and the first one listed for
an edge is the one that is closed. -/
namespace AetherX.FallbackTransport
open Supervisor List

inductive FallbackKind where
  | tlsInTls
  | grpcMux
  | doH
  | icmpEncap
  | ipv6Direct
  deriving DecidableEq

def FallbackKind.priority : FallbackKind → Nat
  | .tlsInTls => 10
  | .grpcMux => 20
  | .doH => 30
  | .icmpEncap => 40
  | .ipv6Direct => 50

def FallbackKind.all : List FallbackKind := [.tlsInTls,.grpcMux,.doH,.icmpEncap,.ipv6Direct]

structure FallbackHealth where
  kind : FallbackKind
  successRate : Float
  avgRttMs : Nat
  lastSuccess : Option Instant
  consecutiveFailures : Nat
  available : Bool

namespace FallbackHealth
def new (kind : FallbackKind) : FallbackHealth := ⟨kind,1.0,100,none,0,true⟩

def recordSuccess (h : FallbackHealth) (rttMs : Nat) (now : Instant) : FallbackHealth :=
  { h with
    successRate := h.successRate*0.9+0.1
    avgRttMs := (h.avgRttMs*9+rttMs)/10
    lastSuccess := some now
    consecutiveFailures := 0
    available := true }

def recordFailure (h : FallbackHealth) : FallbackHealth :=
  { h with
    successRate := h.successRate*0.9
    consecutiveFailures := h.consecutiveFailures+1
    available := if 3 ≤ h.consecutiveFailures+1 then false else h.available }

def score (h : FallbackHealth) : Float :=
  if !h.available then 0.0
  else
    let rttFactor := 1.0/(1.0+h.avgRttMs.toFloat/1000.0)
    h.successRate*rttFactor*(1.0/h.kind.priority.toFloat*50.0)

/- The check that auto_failover makes in place of a dial. -/
def usable (h : FallbackHealth) : Bool := h.available && h.successRate > 0.3

end FallbackHealth

structure ReverseTunnel where
  edgeId : String
  coreAddr : String
  transport : FallbackKind
  establishedAt : Instant
  bytesRelayed : Nat
  active : Bool

/- One health entry for each kind, in the order of their declaration. -/
structure ReverseTunnelManager where
  health : List FallbackHealth
  kinds : health.map FallbackHealth.kind=FallbackKind.all
  tunnels : List ReverseTunnel
  totalBytes : Nat
  tunnelsEstablished : Nat

namespace ReverseTunnelManager
def new : ReverseTunnelManager where
  health := FallbackKind.all.map FallbackHealth.new
  kinds := rfl
  tunnels := []
  totalBytes := 0
  tunnelsEstablished := 0

/- A better score first; equal scores stay in place, as in a stable sort. -/
def fallbackChain (m : ReverseTunnelManager) : List FallbackKind :=
  (m.health.insertionSort fun a b => ¬ a.score < b.score).map FallbackHealth.kind

theorem map_kind_lookmap (kind : FallbackKind) (f : FallbackHealth → FallbackHealth)
    (hf : ∀ h, (f h).kind=h.kind) (health : List FallbackHealth) :
    (health.lookmap fun h => if h.kind=kind then some (f h) else none).map FallbackHealth.kind =
      health.map FallbackHealth.kind := by
  refine lookmap_map_eq _ _ (fun h g hg => ?_) health
  split_ifs at hg
  · rw [← Option.some.inj hg,hf]
  · cases hg

def modifyHealth (m : ReverseTunnelManager) (kind : FallbackKind)
    (f : FallbackHealth → FallbackHealth) (hf : ∀ h, (f h).kind=h.kind) : ReverseTunnelManager :=
  { m with
    health := m.health.lookmap fun h => if h.kind=kind then some (f h) else none
    kinds := (map_kind_lookmap kind f hf m.health).trans m.kinds }

def recordSuccess (m : ReverseTunnelManager) (kind : FallbackKind) (rttMs : Nat) (now : Instant) :
    ReverseTunnelManager :=
  m.modifyHealth kind (fun h => h.recordSuccess rttMs now) fun _ => rfl

def recordFailure (m : ReverseTunnelManager) (kind : FallbackKind) : ReverseTunnelManager :=
  m.modifyHealth kind FallbackHealth.recordFailure fun _ => rfl

def establishTunnel (m : ReverseTunnelManager) (edgeId coreAddr : String)
    (transport : FallbackKind) (now : Instant) : ReverseTunnelManager :=
  let tunnel := ⟨edgeId,coreAddr,transport,now,0,true⟩
  recordSuccess { m with
    tunnels := m.tunnels++[tunnel]
    tunnelsEstablished := m.tunnelsEstablished+1 } transport 50 now

def relayBytes (m : ReverseTunnelManager) (edgeId : String) (bytes : Nat) :
    ReverseTunnelManager × Bool :=
  if m.tunnels.any fun t => t.edgeId=edgeId && t.active then
    ({ m with
      tunnels := m.tunnels.lookmap fun t =>
        if t.edgeId=edgeId && t.active then
          some { t with bytesRelayed := t.bytesRelayed+bytes }
        else none
      totalBytes := m.totalBytes+bytes }, true)
  else (m, false)

def closeTunnel (m : ReverseTunnelManager) (edgeId : String) : ReverseTunnelManager × Bool :=
  ({ m with
    tunnels := m.tunnels.lookmap fun t =>
      if t.edgeId=edgeId then some { t with active := false } else none },
    m.tunnels.any fun t => t.edgeId=edgeId)

def passes (m : ReverseTunnelManager) (kind : FallbackKind) : Bool :=
  (m.health.find? fun h => h.kind=kind).any FallbackHealth.usable

def autoFailover (m : ReverseTunnelManager) (edgeId coreAddr : String) (now : Instant) :
    ReverseTunnelManager × Option FallbackKind :=
  match m.fallbackChain.find? m.passes with
  | some kind => (m.establishTunnel edgeId coreAddr kind now, some kind)
  | none => (m, none)

def activeFor (m : ReverseTunnelManager) (edgeId : String) : Nat :=
  m.tunnels.countP fun t => t.edgeId=edgeId && t.active

def firstFor (m : ReverseTunnelManager) (edgeId : String) : Option ReverseTunnel :=
  m.tunnels.find? fun t => t.edgeId=edgeId

/- Some transport would pass the check of auto_failover. -/
def usable (m : ReverseTunnelManager) : Bool := m.health.any FallbackHealth.usable

end ReverseTunnelManager

section
variable (m : ReverseTunnelManager)

theorem find_kind {h : FallbackHealth} (hmem : h∈m.health) :
    m.health.find? (fun g => g.kind=h.kind)=some h := by
  have hnodup : (m.health.map FallbackHealth.kind).Nodup := by
    rw [m.kinds]
    decide
  cases hfind : m.health.find? (fun g => g.kind=h.kind) with
  | none => exact absurd (find?_eq_none.mp hfind h hmem) (by simp)
  | some g =>
    have hkind : g.kind=h.kind := by simpa using find?_some hfind
    rw [inj_on_of_nodup_map hnodup (mem_of_find?_eq_some hfind) hmem hkind]

theorem mem_fallbackChain {kind : FallbackKind} :
    kind∈m.fallbackChain ↔ ∃ h∈m.health, h.kind=kind := by
  rw [ReverseTunnelManager.fallbackChain,mem_map]
  simp only [mem_insertionSort]

/-- A chain is walked to a transport that passes exactly if there is one. -/
theorem passes_of_usable (h : m.usable=true) : ∃ kind∈m.fallbackChain, m.passes kind=true := by
  obtain ⟨g,hg,husable⟩ := any_eq_true.mp h
  refine ⟨g.kind,(mem_fallbackChain m).mpr ⟨g,hg,rfl⟩,?_⟩
  rw [ReverseTunnelManager.passes,find_kind m hg]
  exact husable

theorem usable_of_passes {kind : FallbackKind} (h : m.passes kind=true) : m.usable=true := by
  rw [ReverseTunnelManager.passes,Option.any_eq_true] at h
  obtain ⟨g,hg,husable⟩ := h
  exact any_eq_true.mpr ⟨g,mem_of_find?_eq_some hg,husable⟩

theorem autoFailover_usable (h : m.usable=true) (edgeId coreAddr : String) (now : Instant) :
    ∃ kind, m.autoFailover edgeId coreAddr now =
      (m.establishTunnel edgeId coreAddr kind now, some kind) := by
  rw [ReverseTunnelManager.autoFailover]
  cases hfind : m.fallbackChain.find? m.passes with
  | some kind => exact ⟨kind,rfl⟩
  | none =>
    obtain ⟨kind,hmem,hpasses⟩ := passes_of_usable m h
    exact absurd hpasses (find?_eq_none.mp hfind kind hmem)

theorem autoFailover_not_usable (h : m.usable=false) (edgeId coreAddr : String) (now : Instant) :
    m.autoFailover edgeId coreAddr now=(m, none) := by
  rw [ReverseTunnelManager.autoFailover]
  cases hfind : m.fallbackChain.find? m.passes with
  | some kind =>
    have husable := usable_of_passes m (find?_some hfind)
    rw [h] at husable
    cases husable
  | none => rfl

theorem activeFor_establish (edgeId coreAddr : String) (transport : FallbackKind) (now : Instant)
    (id : String) :
    (m.establishTunnel edgeId coreAddr transport now).activeFor id =
      m.activeFor id+if id=edgeId then 1 else 0 := by
  have htunnels : (m.establishTunnel edgeId coreAddr transport now).tunnels =
      m.tunnels++[⟨edgeId,coreAddr,transport,now,0,true⟩] := rfl
  rw [ReverseTunnelManager.activeFor,htunnels,countP_append]
  by_cases hid : id=edgeId
  · simp [ReverseTunnelManager.activeFor,hid]
  · simp [ReverseTunnelManager.activeFor,hid,Ne.symm hid]

/-- Rewriting the first tunnel that is found, where the rewriting leaves what is counted. -/
theorem countP_lookmap_same (p : ReverseTunnel → Bool) (f : ReverseTunnel → Option ReverseTunnel)
    (hf : ∀ t u, f t=some u → p u=p t) (tunnels : List ReverseTunnel) :
    (tunnels.lookmap f).countP p=tunnels.countP p := by
  induction tunnels with
  | nil => rfl
  | cons t tunnels ih =>
    cases hft : f t with
    | none => rw [lookmap_cons_none _ _ hft,countP_cons,countP_cons,ih]
    | some u =>
      rw [lookmap_cons_some _ _ hft,countP_cons,countP_cons,hf t u hft]

theorem activeFor_close_ne {edgeId id : String} (hne : id≠edgeId) :
    (m.closeTunnel edgeId).1.activeFor id=m.activeFor id := by
  refine countP_lookmap_same _ _ (fun t u hu => ?_) m.tunnels
  split_ifs at hu with hedge
  rw [← Option.some.inj hu]
  simp [hedge,Ne.symm hne]

/-- Closing takes an active tunnel away exactly if the first one listed is active. -/
theorem activeFor_close (edgeId : String) :
    (m.closeTunnel edgeId).1.activeFor edgeId +
      (if (m.firstFor edgeId).any ReverseTunnel.active then 1 else 0)=m.activeFor edgeId := by
  have hlist : ∀ tunnels : List ReverseTunnel,
      (tunnels.lookmap fun t => if t.edgeId=edgeId then some { t with active := false }
        else none).countP (fun t => t.edgeId=edgeId && t.active) +
      (if (tunnels.find? fun t => t.edgeId=edgeId).any ReverseTunnel.active then 1 else 0) =
        tunnels.countP fun t => t.edgeId=edgeId && t.active := by
    intro tunnels
    induction tunnels with
    | nil => rfl
    | cons t tunnels ih =>
      by_cases hedge : t.edgeId=edgeId
      · rw [lookmap_cons_some _ _ (by rw [if_pos hedge])]
        simp [countP_cons,hedge]
      · rw [lookmap_cons_none _ _ (by rw [if_neg hedge])]
        simpa [countP_cons,hedge] using ih
  exact hlist m.tunnels

theorem relayBytes_eq_false_iff (edgeId : String) (bytes : Nat) :
    (m.relayBytes edgeId bytes).2=false ↔ m.activeFor edgeId=0 := by
  rw [ReverseTunnelManager.relayBytes,ReverseTunnelManager.activeFor,countP_eq_zero]
  split_ifs with h
  · simpa using h
  · simpa using h

theorem activeFor_relay (edgeId : String) (bytes : Nat) (id : String) :
    (m.relayBytes edgeId bytes).1.activeFor id=m.activeFor id := by
  rw [ReverseTunnelManager.relayBytes]
  split_ifs with h
  · refine countP_lookmap_same _ _ (fun t u hu => ?_) m.tunnels
    split_ifs at hu with hedge
    rw [← Option.some.inj hu]
  · rfl
end
end AetherX.FallbackTransport
