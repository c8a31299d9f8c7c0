import Mathlib.Data.List.AList
import AetherX.Breadth

/-! The mesh of domestic peers: nodes that come and go, channels between them, and the search for a
way to a peer with egress. -/
namespace AetherX.Mesh
open Breadth

structure MeshNode where
  id : String
  healthy : Bool
  hasEgress : Bool

structure DataChannel where
  localId : String
  remoteId : String

structure MeshOrchestrator where
  nodes : AList fun _ : String => MeshNode
  channels : AList fun _ : String => DataChannel

inductive Call where
  | addNode (node : MeshNode)
  | removeNode (id : String)
  | markHealthy (id : String) (healthy : Bool)
  | openChannel (localId remoteId : String)
  | closeChannel (id : String)

inductive MeshError where
  | nodeNotFound
  | nodeUnhealthy

/- A range over the channels may walk them in any order, and each in another one. -/
structure Ranges where
  arrange : Path String → List DataChannel → List DataChannel
  perm : ∀ path channels, (arrange path channels).Perm channels

namespace MeshOrchestrator
def new : MeshOrchestrator := ⟨∅,∅⟩

def addNode (m : MeshOrchestrator) (node : MeshNode) : MeshOrchestrator :=
  { m with nodes := m.nodes.insert node.id node }

def removeNode (m : MeshOrchestrator) (id : String) : MeshOrchestrator where
  nodes := m.nodes.erase id
  channels := (m.channels.entries.filter fun c => c.2.localId=id || c.2.remoteId=id).foldl
    (fun channels c => channels.erase c.1) m.channels

def markHealthy (m : MeshOrchestrator) (id : String) (healthy : Bool) : MeshOrchestrator :=
  match m.nodes.lookup id with
  | some node => { m with nodes := m.nodes.insert id { node with healthy } }
  | none => m

/- The id is that of another channel if both spell the same text. -/
def openChannel (m : MeshOrchestrator) (localId remoteId : String) :
    MeshOrchestrator × Except MeshError DataChannel :=
  match m.nodes.lookup localId, m.nodes.lookup remoteId with
  | some near, some far =>
    if !near.healthy || !far.healthy then (m, .error .nodeUnhealthy)
    else
      let channel : DataChannel := ⟨localId,remoteId⟩
      ({ m with channels := m.channels.insert (localId ++ "->" ++ remoteId) channel }, .ok channel)
  | _, _ => (m, .error .nodeNotFound)

def closeChannel (m : MeshOrchestrator) (id : String) : MeshOrchestrator :=
  { m with channels := m.channels.erase id }

def apply (m : MeshOrchestrator) : Call → MeshOrchestrator
  | .addNode node => m.addNode node
  | .removeNode id => m.removeNode id
  | .markHealthy id healthy => m.markHealthy id healthy
  | .openChannel localId remoteId => (m.openChannel localId remoteId).1
  | .closeChannel id => m.closeChannel id

def healthy (m : MeshOrchestrator) (id : String) : Bool := (m.nodes.lookup id).any (·.healthy)

def hasEgress (m : MeshOrchestrator) (id : String) : Bool := (m.nodes.lookup id).any (·.hasEgress)

end MeshOrchestrator

def DataChannel.neighbor (last : String) (c : DataChannel) : Option String :=
  if c.localId=last then some c.remoteId
  else if c.remoteId=last then some c.localId
  else none

namespace MeshOrchestrator
def ranged (m : MeshOrchestrator) : List DataChannel := m.channels.entries.map Sigma.snd

/- Every vertex but the first is an end of a channel, which bounds the search. -/
def findEgressPath (m : MeshOrchestrator) (ranges : Ranges) (fromId : String) : Option (Option (List String)) :=
  (search m.healthy m.hasEgress (fun path => (ranges.arrange path m.ranged).filterMap (·.neighbor path.last))
    (2*m.ranged.length+1) [fromId] [⟨[],fromId⟩]).map (·.map Path.nodes)

def Joined (m : MeshOrchestrator) (v w : String) : Prop :=
  ∃ c∈m.ranged, c.localId=v ∧ c.remoteId=w ∨ c.remoteId=v ∧ c.localId=w

end MeshOrchestrator

theorem neighbor_eq_some_iff {c : DataChannel} {v w : String} :
    c.neighbor v=some w ↔ c.localId=v ∧ c.remoteId=w ∨ c.remoteId=v ∧ c.localId=w := by
  rw [DataChannel.neighbor]
  grind

/- What a way to egress is: the nodes exist and are healthy, each is joined to the next by a channel, and
   the last one has egress. -/
def egress (m : MeshOrchestrator) (fromId : String) : Quest String := ⟨fromId,m.healthy,m.hasEgress,m.Joined⟩

/-- The search for egress returns, whatever the order of the ranges: a shortest way to egress, or false
exactly if there is no way. -/
theorem egress_path_shortest (calls : List Call) (ranges : Ranges) (fromId : String) :
    let m := calls.foldl MeshOrchestrator.apply .new
    (∀ path, m.findEgressPath ranges fromId=some (some path) →
      (egress m fromId).Route path ∧ ∀ other, (egress m fromId).Route other → path.length ≤ other.length) ∧
    (m.findEgressPath ranges fromId=some none ↔ ¬ ∃ path, (egress m fromId).Route path) ∧
    m.findEgressPath ranges fromId≠none := by
  intro m
  have hnexts : ∀ path w, w∈(ranges.arrange path m.ranged).filterMap (·.neighbor path.last) ↔
      (egress m fromId).adj path.last w := by
    intro path w
    simp [(ranges.perm path m.ranged).mem_iff,neighbor_eq_some_iff,egress,MeshOrchestrator.Joined]
  have hends : ∀ v w, (egress m fromId).adj v w →
      w∈fromId::(m.ranged.map DataChannel.localId++m.ranged.map DataChannel.remoteId) := by
    rintro v w ⟨c,hc,⟨_,rfl⟩ | ⟨_,rfl⟩⟩ <;> simp [List.mem_map_of_mem hc]
  obtain ⟨path,hsearch,hroute,hmin⟩ | ⟨hsearch,hnone⟩ :=
    search_spec (n := 2*m.ranged.length+1) hnexts hends inv_start (by simp [egress])
      (by simp only [List.length_cons,List.length_append,List.length_map]; omega)
  · have hfind : m.findEgressPath ranges fromId=some (some path.nodes) := by
      rw [MeshOrchestrator.findEgressPath]
      exact congrArg (Option.map _) hsearch
    rw [hfind]
    refine ⟨?_,?_,nofun⟩
    · rintro _ ⟨⟩
      exact ⟨hroute,hmin⟩
    · exact iff_of_false nofun fun hno => hno ⟨_,hroute⟩
  · have hfind : m.findEgressPath ranges fromId=some none := by
      rw [MeshOrchestrator.findEgressPath]
      exact congrArg (Option.map _) hsearch
    rw [hfind]
    exact ⟨nofun,iff_of_true rfl hnone,nofun⟩

end AetherX.Mesh
