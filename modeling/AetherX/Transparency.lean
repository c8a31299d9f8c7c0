import AetherX.ConsistencyTies

/-! The public transparency log of the supervisor: a log of leaves, its forest root,
inclusion and consistency proofs, and the two verifiers. -/
namespace AetherX.Transparency
open HashTree SplitTree Sha256 Merkle List
open MerkleConsistency (ConsistencyNode largestPow2Lt largestPow2Lt_pos largestPow2Lt_lt
  largestPow2Lt_eq leafAt subtreeHash_eq forestRoot_fromLeaves)
open ConsistencyTies (forestInputs forestInputs_pair)

structure ProofStep where
  sibling : Digest
  isRightSibling : Bool

structure InclusionProof where
  index : Nat
  steps : List ProofStep

structure ConsistencyProof where
  oldSize : Nat
  newSize : Nat
  oldRoot : Digest
  newRoot : Digest
  nodes : List ConsistencyNode

structure MerkleLog where
  leaves : List Bytes

def MerkleLog.new : MerkleLog := ⟨[]⟩

def MerkleLog.append (log : MerkleLog) (data : Bytes) : MerkleLog × Nat :=
  (⟨log.leaves++[data]⟩, log.leaves.length)

def MerkleLog.size (log : MerkleLog) : Nat := log.leaves.length

theorem two_le_range {first last len : Nat} (h : first < last ∧ last ≤ len) (h1 : ¬ last-first=1) :
    2 ≤ last-first := by
  omega

theorem left_range {first last k len : Nat} (h : first < last ∧ last ≤ len) (hk : 0 < k)
    (hk' : k < last-first) : first < first+k ∧ first+k ≤ len := by
  omega

theorem right_range {first last k len : Nat} (h : first < last ∧ last ≤ len)
    (hk' : k < last-first) : first+k < last ∧ last ≤ len := by
  omega

section
variable (sha256 : Bytes → Digest)

/- The crate repeats the two hashes and the forest hash of antiforgery line by line. -/
def subtreeHash (leaves : List Digest) (first last : Nat)
    (h : first < last ∧ last ≤ leaves.length) : Digest :=
  MerkleConsistency.subtreeHash sha256 leaves first last h

def MerkleLog.forestRoot (log : MerkleLog) : Option Digest :=
  if h : log.leaves=[] then none
  else
    let leafHashes := log.leaves.map (leafHash sha256)
    some (subtreeHash sha256 leafHashes 0 leafHashes.length
      ⟨by simpa [leafHashes] using length_pos_iff.mpr h,Nat.le_refl _⟩)

def collectInclusionSteps (hashes : List Digest) (first last index : Nat)
    (h : first < last ∧ last ≤ hashes.length) : List ProofStep :=
  if h1 : last-first=1 then []
  else
    have hk := largestPow2Lt_pos (two_le_range h h1)
    have hk' := largestPow2Lt_lt (two_le_range h h1)
    let split := first+largestPow2Lt (last-first)
    if index < split then
      collectInclusionSteps hashes first split index (left_range h hk hk') ++
        [⟨subtreeHash sha256 hashes split last (right_range h hk'),true⟩]
    else
      collectInclusionSteps hashes split last index (right_range h hk') ++
        [⟨subtreeHash sha256 hashes first split (left_range h hk hk'),false⟩]
termination_by last-first

def MerkleLog.inclusionProof (log : MerkleLog) (index : Nat) : Option InclusionProof :=
  if h : index ≥ log.leaves.length then none
  else
    let leafHashes := log.leaves.map (leafHash sha256)
    some ⟨index,collectInclusionSteps sha256 leafHashes 0 leafHashes.length index
      ⟨by simp [leafHashes]; omega,Nat.le_refl _⟩⟩

def climb (node : Digest) (step : ProofStep) : Digest :=
  if step.isRightSibling then parentHash sha256 node step.sibling
  else parentHash sha256 step.sibling node

def verifyInclusion (root : Digest) (leafData : Bytes) (proof : InclusionProof) : Bool :=
  proof.steps.foldl (climb sha256) (leafHash sha256 leafData) == root
end

/- No node is ever compared with anything. -/
def verifyConsistency (proof : ConsistencyProof) : Bool :=
  if proof.oldSize=0 then true
  else if proof.oldSize=proof.newSize then
    proof.oldRoot == proof.newRoot && proof.nodes.isEmpty
  else !proof.nodes.isEmpty || proof.oldSize == proof.newSize

variable (sha256 : Bytes → Digest)

theorem subtreeHash_single (hashes : List Digest) (first last : Nat)
    (h : first < last ∧ last ≤ hashes.length) (hfirst : first < hashes.length)
    (h1 : last-first=1) : subtreeHash sha256 hashes first last h=hashes[first] := by
  rw [subtreeHash,MerkleConsistency.subtreeHash,dif_pos h1]

theorem subtreeHash_split (hashes : List Digest) (first last : Nat)
    (h : first < last ∧ last ≤ hashes.length) (h2 : 2 ≤ last-first)
    (hk : 0 < largestPow2Lt (last-first)) (hk' : largestPow2Lt (last-first) < last-first) :
    subtreeHash sha256 hashes first last h=parentHash sha256
      (subtreeHash sha256 hashes first (first+largestPow2Lt (last-first)) (left_range h hk hk'))
      (subtreeHash sha256 hashes (first+largestPow2Lt (last-first)) last (right_range h hk')) := by
  rw [subtreeHash,MerkleConsistency.subtreeHash,dif_neg (by omega)]
  rfl

/-- Folding the collected steps over a leaf hash gives the hash of the range. -/
theorem collectInclusionSteps_climb (hashes : List Digest) (first last index : Nat)
    (h : first < last ∧ last ≤ hashes.length) (hlo : first ≤ index) (hhi : index < last)
    (hin : index < hashes.length) :
    (collectInclusionSteps sha256 hashes first last index h).foldl (climb sha256) hashes[index] =
      subtreeHash sha256 hashes first last h := by
  induction hs : last-first using Nat.strong_induction_on generalizing first last with
  | _ size ih =>
    subst hs
    rw [collectInclusionSteps]
    by_cases h1 : last-first=1
    · obtain rfl : index=first := by omega
      rw [dif_pos h1,subtreeHash_single sha256 hashes index last h hin h1]
      rfl
    · have h2 := two_le_range h h1
      have hk := largestPow2Lt_pos h2
      have hk' := largestPow2Lt_lt h2
      rw [dif_neg h1,subtreeHash_split sha256 hashes first last h h2 hk hk']
      by_cases hi : index < first+largestPow2Lt (last-first)
      · simp only [hi,if_true,foldl_append,foldl_cons,foldl_nil]
        rw [ih _ (by omega) first _ (by omega) hlo hi rfl,climb,if_pos rfl]
      · simp only [hi,if_false,foldl_append,foldl_cons,foldl_nil]
        rw [ih _ (by omega) _ last (by omega) (by omega) hhi rfl,climb]
        rfl

theorem clog_split {n : Nat} (h : 2 ≤ n) : Nat.clog 2 n=Nat.clog 2 (split n)+1 := by
  have hlt := split_lt h
  have hle := le_two_mul_split h
  unfold split at hlt hle ⊢
  rw [Nat.clog_pow 2 _ (by omega)]
  apply le_antisymm
  · apply Nat.clog_le_of_le_pow
    rw [Nat.pow_succ]
    omega
  · rw [Nat.succ_le_iff]
    exact (Nat.lt_clog_iff_pow_lt (by omega)).mpr hlt

/- One step a level: the right part of a split is never the larger one. -/
theorem length_collectInclusionSteps (hashes : List Digest) (first last index : Nat)
    (h : first < last ∧ last ≤ hashes.length) :
    (collectInclusionSteps sha256 hashes first last index h).length ≤
      Nat.clog 2 (last-first) := by
  induction hs : last-first using Nat.strong_induction_on generalizing first last with
  | _ size ih =>
    subst hs
    rw [collectInclusionSteps]
    by_cases h1 : last-first=1
    · rw [dif_pos h1]
      exact Nat.zero_le _
    · have h2 : 2 ≤ last-first := by omega
      have hk := split_pos (last-first)
      have hk' := split_lt h2
      have hle := le_two_mul_split h2
      rw [dif_neg h1,clog_split h2]
      simp only [largestPow2Lt_eq h2]
      by_cases hi : index < first+split (last-first)
      · have hleft := ih (split (last-first)) hk' first (first+split (last-first))
          (by omega) (by omega)
        simp only [hi,if_true,length_append,length_singleton]
        omega
      · have hright := ih (last-first-split (last-first)) (by omega)
          (first+split (last-first)) last (by omega) (by omega)
        have hmono : Nat.clog 2 (last-first-split (last-first)) ≤
            Nat.clog 2 (split (last-first)) := Nat.clog_mono_right 2 (by omega)
        simp only [hi,if_false,length_append,length_singleton]
        omega

/-- Every leaf of a log has an inclusion proof that verifies against the forest root, with at
most one step for each doubling of the log. -/
theorem inclusionProof_complete (log : MerkleLog) (index : Nat) (h : index < log.leaves.length) :
    ∃ proof root, log.inclusionProof sha256 index=some proof ∧
      log.forestRoot sha256=some root ∧
      verifyInclusion sha256 root log.leaves[index] proof=true ∧
      proof.steps.length ≤ Nat.clog 2 log.leaves.length := by
  have hne : log.leaves≠[] := ne_nil_of_length_pos (by omega)
  have hin : index<(log.leaves.map (leafHash sha256)).length := by simpa using h
  refine ⟨_,_,by rw [MerkleLog.inclusionProof,dif_neg (by omega)],
    by rw [MerkleLog.forestRoot,dif_neg hne],?_,?_⟩
  · have hclimb := collectInclusionSteps_climb sha256 (log.leaves.map (leafHash sha256)) 0
      (log.leaves.map (leafHash sha256)).length index ⟨by omega,Nat.le_refl _⟩ (by omega) hin hin
    rw [getElem_map] at hclimb
    simp only [verifyInclusion,hclimb,beq_self_eq_true]
  · have hlen := length_collectInclusionSteps sha256 (log.leaves.map (leafHash sha256)) 0
      (log.leaves.map (leafHash sha256)).length index ⟨by omega,Nat.le_refl _⟩
    simpa using hlen

/- The last leaf of three sits one level higher than the other two. -/
theorem inclusionProof_complete_three :
    ∃ proof root, (MerkleLog.mk [[1],[2],[3]]).inclusionProof Sha256.sha256 2=some proof ∧
      (MerkleLog.mk [[1],[2],[3]]).forestRoot Sha256.sha256=some root ∧
      verifyInclusion Sha256.sha256 root [3] proof=true ∧ proof.steps.length≤2 :=
  inclusionProof_complete Sha256.sha256 ⟨[[1],[2],[3]]⟩ 2 (by decide)

theorem forestRoot_eq (leaves : List Bytes) (hne : leaves≠[]) :
    (MerkleLog.mk leaves).forestRoot sha256 =
      some ((rangeTree (leafAt leaves) 0 leaves.length).root (scheme sha256)) := by
  rw [MerkleLog.forestRoot,dif_neg hne]
  simp only [subtreeHash]
  rw [subtreeHash_eq]
  simp

theorem verifyConsistency_of_lt {proof : ConsistencyProof} (hpos : 0 < proof.oldSize)
    (hlt : proof.oldSize < proof.newSize) :
    verifyConsistency proof=true ↔ proof.nodes≠[] := by
  rw [verifyConsistency,if_neg hpos.ne',if_neg hlt.ne]
  simp [hlt.ne]

/- What soundness asks of two logs: the one starts the other, or hashing them collides. -/
def Extends (A B : List Bytes) : Prop :=
  A.map (leafHash sha256) <+: B.map (leafHash sha256) ∨
    Collides sha256 (forestInputs sha256 A++forestInputs sha256 B)

/-- For given sizes and nodes the verifier is sound for all logs exactly when there is no node
at all, so that nothing is accepted (or when there is nothing to tell apart: every log of the
new size extends every log of the old one). -/
theorem acceptance_sound_iff_no_nodes (oldSize newSize : Nat) (hpos : 0 < oldSize)
    (hlt : oldSize < newSize) (nodes : List ConsistencyNode) :
    (∀ (A B : List Bytes) (oldRoot newRoot : Digest), A.length = oldSize → B.length=newSize →
      (MerkleLog.mk A).forestRoot sha256=some oldRoot →
      (MerkleLog.mk B).forestRoot sha256=some newRoot →
      verifyConsistency ⟨oldSize,newSize,oldRoot,newRoot,nodes⟩=true →
      Extends sha256 A B) ↔
    (nodes=[] ∨ ∀ A B : List Bytes, A.length = oldSize → B.length=newSize →
      Extends sha256 A B) := by
  constructor
  · intro hsound
    by_cases hnodes : nodes=[]
    · exact .inl hnodes
    · refine .inr fun A B hA hB => ?_
      have hAne : A≠[] := ne_nil_of_length_pos (by omega)
      have hBne : B≠[] := ne_nil_of_length_pos (by omega)
      exact hsound A B _ _ hA hB (forestRoot_eq sha256 A hAne) (forestRoot_eq sha256 B hBne)
        ((verifyConsistency_of_lt hpos hlt).mpr hnodes)
  · intro hcond A B oldRoot newRoot hA hB _ _ hacc
    cases hcond with
    | inl hnone => exact absurd hnone ((verifyConsistency_of_lt hpos hlt).mp hacc)
    | inr hall => exact hall A B hA hB

theorem acceptance_sound_iff_no_nodes_empty :
    verifyConsistency ⟨1,2,Digest.zero,Digest.zero,[]⟩=false ∧
    ∀ (A B : List Bytes) (oldRoot newRoot : Digest), A.length=1 → B.length=2 →
      (MerkleLog.mk A).forestRoot Sha256.sha256=some oldRoot →
      (MerkleLog.mk B).forestRoot Sha256.sha256=some newRoot →
      verifyConsistency ⟨1,2,oldRoot,newRoot,[]⟩=true → Extends Sha256.sha256 A B :=
  ⟨rfl,(acceptance_sound_iff_no_nodes Sha256.sha256 1 2 (by decide) (by decide) []).mpr (.inl rfl)⟩

/- A log of one leaf and a log that starts with another leaf, under SHA-256. -/
theorem not_extends_other_leaf : ¬ Extends Sha256.sha256 [[2]] [[1],[2]] := by
  intro hext
  cases hext with
  | inl hpre =>
    have heq : leafHash Sha256.sha256 [2]=leafHash Sha256.sha256 [1] := by simpa using hpre
    refine one_two_distinct ⟨leafMessage [2],?_,leafMessage [1],?_,by decide,heq⟩ <;>
      simp [treeInputs_pair]
  | inr hc =>
    refine one_two_distinct (hc.mono fun x hx => ?_)
    have hone : forestInputs Sha256.sha256 [[2]]=[leafMessage [2]] := by
      rw [forestInputs,length_singleton,rangeTree_one]
      rfl
    rw [mem_append,hone,forestInputs_pair] at hx
    cases hx with
    | inl hx =>
      rw [mem_singleton.mp hx,treeInputs_pair]
      simp
    | inr hx => exact hx

/- Any single node will do. -/
theorem acceptance_of_any_node :
    ¬ ∀ (A B : List Bytes) (proof : ConsistencyProof), 0 < A.length → A.length < B.length →
      proof.oldSize=A.length → proof.newSize=B.length →
      (MerkleLog.mk A).forestRoot Sha256.sha256=some proof.oldRoot →
      (MerkleLog.mk B).forestRoot Sha256.sha256=some proof.newRoot →
      verifyConsistency proof=true → Extends Sha256.sha256 A B := by
  intro hall
  exact not_extends_other_leaf (hall [[2]] [[1],[2]] ⟨1,2,_,_,[⟨0,1,Digest.zero⟩]⟩
    (by decide) (by decide) rfl rfl (forestRoot_eq _ _ (by decide)) (forestRoot_eq _ _ (by decide))
    rfl)

end AetherX.Transparency
