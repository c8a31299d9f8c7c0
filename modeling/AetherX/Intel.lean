import Mathlib.Algebra.BigOperators.Group.Finset.Piecewise
import Mathlib.Algebra.Group.Action.Defs
import Mathlib.Data.List.Destutter
import Mathlib.Data.List.Sort
import Mathlib.Data.String.Basic
import AetherX.Supervisor

/-! What a device and its domestic peers have seen of each transport, fused into one score.
The scores of the code are floating-point sums of 10, 1 and 2, which are whole numbers. -/
namespace AetherX.Intel
open List
open Supervisor (Instant Duration fromSecs)

def observationTtl : Duration := fromSecs 300
def maxReportsPerPeer : Nat := 3
def localWeight : Int := 10
def peerSuccessWeight : Int := 1
def peerFailureWeight : Int := 2

inductive Outcome where
  | works
  | blocked
  deriving DecidableEq

structure Observation where
  transport : String
  outcome : Outcome
  peerId : Option String
  seenAt : Instant
  deriving DecidableEq

namespace Observation
def ofLocal (transport : String) (outcome : Outcome) (now : Instant) : Observation :=
  ⟨transport,outcome,none,now⟩

def isFresh (o : Observation) (now : Instant) : Bool := decide (now-o.seenAt ≤ observationTtl)

def isLocal (o : Observation) : Bool := o.peerId.isNone

end Observation

structure TransportScore where
  transport : String
  score : Int
  hasLocalEvidence : Bool
  peerCount : Nat
  observations : Nat
  deriving DecidableEq

structure Tally where
  score : Int
  hasLocal : Bool
  perPeer : String → Nat
  peers : List String
  counted : Nat

def Tally.empty : Tally := ⟨0,false,fun _ => 0,[],0⟩

def Tally.add (t : Tally) (o : Observation) : Tally :=
  match o.peerId with
  | none =>
    { t with
      hasLocal := true
      counted := t.counted+1
      score := t.score+match o.outcome with
        | .works => localWeight
        | .blocked => -localWeight }
  | some pid =>
    if t.perPeer pid ≥ maxReportsPerPeer then t
    else
      { t with
        perPeer := Function.update t.perPeer pid (t.perPeer pid+1)
        peers := if pid∈t.peers then t.peers else t.peers++[pid]
        counted := t.counted+1
        score := t.score+match o.outcome with
          | .works => peerSuccessWeight
          | .blocked => -peerFailureWeight }

def relevant (observations : List Observation) (transport : String) (now : Instant) :
    List Observation :=
  observations.filter fun o => o.transport=transport && o.isFresh now

def scoreFrom (observations : List Observation) (transport : String) (now : Instant) :
    TransportScore :=
  let t := (relevant observations transport now).foldl Tally.add .empty
  ⟨transport,t.score,t.hasLocal,t.peers.length,t.counted⟩

structure DomesticIntel where
  selfId : String
  observations : List Observation
  gossipSent : Nat
  gossipReceived : Nat
  rejected : Nat

namespace DomesticIntel
def new (selfId : String) : DomesticIntel := ⟨selfId,[],0,0,0⟩

def prune (observations : List Observation) (now : Instant) : List Observation :=
  observations.filter fun o => o.isFresh now

def observeLocal (d : DomesticIntel) (transport : String) (outcome : Outcome) (now : Instant) :
    DomesticIntel :=
  { d with observations := prune (d.observations++[.ofLocal transport outcome now]) now }

/- What a peer may not send: its own view of this device's results, or what is stale. -/
def refuses (d : DomesticIntel) (now : Instant) (o : Observation) : Bool :=
  o.isLocal || decide (o.peerId=some d.selfId) || !o.isFresh now

def ingestGossip (d : DomesticIntel) (gossip : List Observation) (now : Instant) :
    DomesticIntel × Nat :=
  let accepted := gossip.filter fun o => !d.refuses now o
  ({ d with
     observations := prune (d.observations++accepted) now
     gossipReceived := d.gossipReceived+accepted.length
     rejected := d.rejected+gossip.countP (d.refuses now) }, accepted.length)

def score (d : DomesticIntel) (transport : String) (now : Instant) : TransportScore :=
  scoreFrom d.observations transport now

def prioritize (d : DomesticIntel) (candidates : List String) (now : Instant) : List String :=
  let scored := candidates.zipIdx.map fun (c, i) => (i, (d.score c now).score, c)
  (scored.insertionSort fun a b => b.2.1 < a.2.1 ∨ b.2.1=a.2.1 ∧ a.1 ≤ b.1).map fun s => s.2.2

/-- A poisoned ranking loses no candidate. -/
theorem prioritize_perm (d : DomesticIntel) (candidates : List String) (now : Instant) :
    (d.prioritize candidates now).Perm candidates := by
  have hsorted := (perm_insertionSort (fun a b : Nat × Int × String =>
    b.2.1 < a.2.1 ∨ b.2.1=a.2.1 ∧ a.1 ≤ b.1)
    (candidates.zipIdx.map fun (c, i) => (i, (d.score c now).score, c))).map fun s => s.2.2
  have hnames : (candidates.zipIdx.map fun (c, i) => (i, (d.score c now).score, c)).map
      (fun s => s.2.2)=candidates := by
    rw [map_map]
    exact zipIdx_map_fst 0 candidates
  rwa [hnames] at hsorted

end DomesticIntel

section
/- The reports of a peer that count: the first three. -/
def heardFrom (observations : List Observation) (pid : String) : List Observation :=
  (observations.filter fun o => o.peerId=some pid).take maxReportsPerPeer

def peers (observations : List Observation) : Finset String :=
  (observations.filterMap Observation.peerId).toFinset

def heardIn (among : Finset String) (observations : List Observation) (outcome : Outcome) : Nat :=
  ∑ pid∈among, (heardFrom observations pid).countP fun o => o.outcome = outcome

def heard (observations : List Observation) (outcome : Outcome) : Nat :=
  heardIn (peers observations) observations outcome

def firsthand (observations : List Observation) (outcome : Outcome) : Nat :=
  observations.countP fun o => o.isLocal && o.outcome = outcome

section
variable (l : List Observation) (o : Observation)

theorem heardFrom_append (pid : String) : heardFrom (l++[o]) pid=heardFrom l pid ++
    if o.peerId=some pid ∧ (heardFrom l pid).length < maxReportsPerPeer then [o] else [] := by
  have hlength : (heardFrom l pid).length=min maxReportsPerPeer
      (l.filter fun o => o.peerId=some pid).length := length_take
  rw [heardFrom,filter_append,take_append]
  congr 1
  by_cases hpid : o.peerId=some pid
  · by_cases hroom : (heardFrom l pid).length < maxReportsPerPeer
    · rw [if_pos ⟨hpid,hroom⟩,filter_cons_of_pos (by simpa using hpid),filter_nil]
      exact take_of_length_le (by simp; omega)
    · rw [if_neg fun h => hroom h.2,Nat.sub_eq_zero_of_le (by omega),take_zero]
  · rw [if_neg fun h => hpid h.1,filter_cons_of_neg (by simpa using hpid),filter_nil,
      take_nil]

theorem heardIn_append_local (among : Finset String) (outcome : Outcome) (ho : o.peerId=none) :
    heardIn among (l++[o]) outcome=heardIn among l outcome := by
  simp [heardIn,heardFrom_append,ho]

theorem heardIn_append_peer {among : Finset String} (outcome : Outcome) {pid : String}
    (ho : o.peerId=some pid) (hpid : pid∈among) :
    heardIn among (l++[o]) outcome=heardIn among l outcome +
      if (heardFrom l pid).length < maxReportsPerPeer ∧ o.outcome = outcome then 1 else 0 := by
  have hterm : ∀ p, (heardFrom (l++[o]) p).countP (fun o => o.outcome = outcome) =
      (heardFrom l p).countP (fun o => o.outcome = outcome)+if p=pid then
        (if (heardFrom l pid).length < maxReportsPerPeer ∧ o.outcome = outcome then 1 else 0)
      else 0 := by
    intro p
    rw [heardFrom_append,countP_append,ho]
    by_cases hp : p=pid
    · subst hp
      by_cases hroom : (heardFrom l p).length < maxReportsPerPeer <;> simp [hroom,countP_cons]
    · simp [hp,Ne.symm hp]
  simp only [heardIn,hterm,Finset.sum_add_distrib,Finset.sum_ite_eq',hpid,if_true]

theorem firsthand_append (outcome : Outcome) : firsthand (l++[o]) outcome =
    firsthand l outcome+if o.peerId=none ∧ o.outcome = outcome then 1 else 0 := by
  by_cases hpeer : o.peerId=none <;>
    simp [firsthand,countP_cons,Observation.isLocal,hpeer]
end

structure Gathered (l : List Observation) (t : Tally) : Prop where
  perPeer : ∀ pid, t.perPeer pid=(heardFrom l pid).length
  score : ∀ among, peers l ⊆ among → t.score =
    10*firsthand l .works-10*firsthand l .blocked+heardIn among l .works -
      2*heardIn among l .blocked

theorem peers_subset_append (l : List Observation) (o : Observation) :
    peers l ⊆ peers (l++[o]) := by
  rw [peers,peers,filterMap_append,toFinset_append]
  exact Finset.subset_union_left

theorem gathered_empty : Gathered [] .empty :=
  ⟨fun _ => rfl,fun among _ => by simp [Tally.empty,firsthand,heardIn,heardFrom]⟩

variable {l : List Observation}

theorem Gathered.add_local {t : Tally} (h : Gathered l t) {o : Observation} (ho : o.peerId=none) : Gathered (l++[o]) (t.add o) := by
  refine ⟨fun pid => ?_,fun among hamong => ?_⟩
  · rw [heardFrom_append,ho,if_neg (by simp),append_nil,Tally.add,ho]
    exact h.perPeer pid
  · have hscore := h.score among ((peers_subset_append l o).trans hamong)
    rw [heardIn_append_local _ _ _ _ ho,heardIn_append_local _ _ _ _ ho,firsthand_append,
      firsthand_append,Tally.add,ho]
    cases houtcome : o.outcome <;> simp [hscore,localWeight] <;> omega

theorem Gathered.add_peer {t : Tally} (h : Gathered l t) {o : Observation} {pid : String}
    (ho : o.peerId=some pid) : Gathered (l++[o]) (t.add o) := by
  have hpeer : pid∈peers (l++[o]) := by simp [peers,ho]
  by_cases hroom : (heardFrom l pid).length < maxReportsPerPeer
  · have hfree : ¬ t.perPeer pid ≥ maxReportsPerPeer := by
      rw [h.perPeer pid]
      omega
    refine ⟨fun p => ?_,fun among hamong => ?_⟩
    · rw [heardFrom_append,ho,Tally.add,ho]
      simp only [hfree,if_false]
      by_cases hp : p=pid
      · subst hp
        simp [hroom,h.perPeer]
      · simp [hp,Ne.symm hp,h.perPeer]
    · have hscore := h.score among ((peers_subset_append l o).trans hamong)
      rw [heardIn_append_peer _ _ _ ho (hamong hpeer),heardIn_append_peer _ _ _ ho (hamong hpeer),
        firsthand_append,firsthand_append,Tally.add,ho]
      simp only [hfree,if_false]
      cases houtcome : o.outcome <;>
        simp [hroom,hscore,peerSuccessWeight,peerFailureWeight] <;> omega
  · have hfull : t.perPeer pid ≥ maxReportsPerPeer := by
      rw [h.perPeer pid]
      omega
    have hsame : t.add o=t := by
      rw [Tally.add,ho]
      exact if_pos hfull
    rw [hsame]
    refine ⟨fun p => ?_,fun among hamong => ?_⟩
    · have hskip : ¬ (some pid=some p ∧ (heardFrom l p).length < maxReportsPerPeer) := by
        rintro ⟨heq,hlt⟩
        rw [← Option.some.inj heq] at hlt
        exact hroom hlt
      rw [heardFrom_append,ho,if_neg hskip,append_nil]
      exact h.perPeer p
    · have hscore := h.score among ((peers_subset_append l o).trans hamong)
      rw [heardIn_append_peer _ _ _ ho (hamong hpeer),heardIn_append_peer _ _ _ ho (hamong hpeer),
        firsthand_append,firsthand_append]
      simpa [hroom,ho] using hscore

theorem gathered (l : List Observation) : Gathered l (l.foldl Tally.add .empty) := by
  induction l using reverseRecOn with
  | nil => exact gathered_empty
  | append_singleton l o ih =>
    rw [foldl_append]
    cases ho : o.peerId with
    | none => exact ih.add_local ho
    | some pid => exact ih.add_peer ho

/-- The score of a transport in terms of what the device saw and what it heard. -/
theorem score_eq (observations : List Observation) (transport : String) (now : Instant) :
    (scoreFrom observations transport now).score =
      10*firsthand (relevant observations transport now) .works -
        10*firsthand (relevant observations transport now) .blocked +
        heard (relevant observations transport now) .works -
        2*heard (relevant observations transport now) .blocked :=
  (gathered (relevant observations transport now)).score _ Finset.Subset.rfl

theorem firsthand_eq_zero_iff {outcome : Outcome} :
    firsthand l outcome=0 ↔ ∀ o∈l, o.isLocal=true → o.outcome≠outcome := by
  simp [firsthand,countP_eq_zero]

/-- First-hand evidence decides the sign of the score exactly if it weighs more than the reports
that are counted against it. -/
theorem firsthand_decides_iff (observations : List Observation) (transport : String)
    (now : Instant) :
    ((∃ o∈relevant observations transport now, o.isLocal=true ∧ o.outcome = .works) →
      (∀ o∈relevant observations transport now, o.isLocal=true → o.outcome ≠ .blocked) →
      (0<(scoreFrom observations transport now).score ↔
        2*heard (relevant observations transport now) .blocked <
          10*firsthand (relevant observations transport now) .works +
            heard (relevant observations transport now) .works)) ∧
    ((∃ o∈relevant observations transport now, o.isLocal=true ∧ o.outcome = .blocked) →
      (∀ o∈relevant observations transport now, o.isLocal=true → o.outcome ≠ .works) →
      ((scoreFrom observations transport now).score<0 ↔
        heard (relevant observations transport now) .works <
          10*firsthand (relevant observations transport now) .blocked +
            2*heard (relevant observations transport now) .blocked)) := by
  rw [score_eq]
  refine ⟨fun _ hnone => ?_,fun _ hnone => ?_⟩
  · have hblocked := firsthand_eq_zero_iff.mpr hnone
    omega
  · have hworks := firsthand_eq_zero_iff.mpr hnone
    omega

def report (peer : String) (outcome : Outcome) : Observation := ⟨"obfs4",outcome,some peer,0⟩

theorem firsthand_decides_iff_one_peer :
    0<(scoreFrom [.ofLocal "obfs4" .works 0,report "peer-1" .blocked,report "peer-1" .blocked,
      report "peer-1" .blocked,report "peer-1" .blocked] "obfs4" 0).score :=
  ((firsthand_decides_iff _ "obfs4" 0).1 (by decide +kernel) (by decide +kernel)).mpr
    (by decide +kernel)

/-- Two peers outvote a result of the device, and four make it trust what it found blocked. -/
theorem hearsay_outweighs_firsthand :
    ((((DomesticIntel.new "device-A").observeLocal "obfs4" .works 0).ingestGossip
      (replicate 3 (report "peer-1" .blocked)++replicate 3 (report "peer-2" .blocked))
      0).1.score "obfs4" 0).score = -2 ∧
    ((((DomesticIntel.new "device-A").observeLocal "obfs4" .blocked 0).ingestGossip
      (replicate 3 (report "peer-1" .works)++replicate 3 (report "peer-2" .works) ++
        replicate 3 (report "peer-3" .works)++replicate 3 (report "peer-4" .works))
      0).1.score "obfs4" 0).score=2 := by
  decide +kernel
end

end AetherX.Intel
