import AetherX.Transparency

/-! The supervisor's own Merkle code next to that of antiforgery. Both crates hash, split and
collect by themselves, the one returning vectors, the other pushing into one; what they compute
is the same. -/
namespace AetherX.MerkleBridge
open HashTree SplitTree Sha256 Merkle Transparency
open MerkleConsistency (ConsistencyNode subproof rangeTree_take verifyConsistency_subproof leafAt
  subtreeHash_eq)

theorem double_pos {k : Nat} (hk : 0 < k) : 0 < k*2 := Nat.mul_pos hk Nat.two_pos

/- The while loop of largestPow2Lt. -/
def doubleBelow (x k : Nat) (hk : 0 < k) : Nat :=
  if k*2 < x then doubleBelow x (k*2) (double_pos hk) else k
termination_by x-k

def largestPow2Lt (x : Nat) : Nat := doubleBelow x 1 Nat.one_pos

theorem doubleBelow_eq (x k : Nat) (hk : 0 < k) :
    doubleBelow x k hk=MerkleConsistency.doubleBelow x k hk := by
  induction k, hk using doubleBelow.induct x with
  | case1 k hk hlt ih => rw [doubleBelow,MerkleConsistency.doubleBelow,if_pos hlt,if_pos hlt,ih]
  | case2 k hk hge => rw [doubleBelow,MerkleConsistency.doubleBelow,if_neg hge,if_neg hge]

theorem largestPow2Lt_eq (x : Nat) : largestPow2Lt x=MerkleConsistency.largestPow2Lt x :=
  doubleBelow_eq x 1 Nat.one_pos

theorem largestPow2Lt_pos {x : Nat} (hx : 2 ≤ x) : 0 < largestPow2Lt x := by
  rw [largestPow2Lt_eq]
  exact MerkleConsistency.largestPow2Lt_pos hx

theorem largestPow2Lt_lt {x : Nat} (hx : 2 ≤ x) : largestPow2Lt x < x := by
  rw [largestPow2Lt_eq]
  exact MerkleConsistency.largestPow2Lt_lt hx

/-! The ranges of leaves that are looked at are proper ones. -/
section
variable {leaves : List Digest} {m first last : Nat}

theorem first_lt (h : first < last ∧ last ≤ leaves.length) : first < leaves.length := by omega

theorem two_le_of_ne_one (h : first < last ∧ last ≤ leaves.length) (h1 : ¬ last-first=1) :
    2 ≤ last-first := by omega

theorem range_of_part (h : 0 < m ∧ first+m ≤ last ∧ last ≤ leaves.length) :
    first < last ∧ last ≤ leaves.length := by omega

theorem two_le_of_part (h : 0 < m ∧ first+m ≤ last ∧ last ≤ leaves.length)
    (h1 : ¬ m=last-first) : 2 ≤ last-first := by omega
end

section
variable (sha256 : Bytes → Digest)

/- The closure that every method of the log maps over its leaves. -/
def leafHash (data : Bytes) : Digest := sha256 (0x00::data)

def parentHash (left right : Digest) : Digest := sha256 (0x01::(left.bytes++right.bytes))

def subtreeHash (leaves : List Digest) (first last : Nat)
    (h : first < last ∧ last ≤ leaves.length) : Digest :=
  if h1 : last-first=1 then leaves.get ⟨first,first_lt h⟩
  else
    have hk := largestPow2Lt_pos (two_le_of_ne_one h h1)
    have hk' := largestPow2Lt_lt (two_le_of_ne_one h h1)
    let k := largestPow2Lt (last-first)
    let left := subtreeHash leaves first (first+k) (by omega)
    let right := subtreeHash leaves (first+k) last (by omega)
    parentHash sha256 left right
termination_by last-first

def forestRoot (log : MerkleLog) : Option Digest :=
  if h : log.leaves=[] then none
  else
    let leafHashes := log.leaves.map (leafHash sha256)
    some (subtreeHash sha256 leafHashes 0 leafHashes.length
      ⟨by simpa [leafHashes] using List.length_pos_iff.mpr h,Nat.le_refl _⟩)

/- The vector that is pushed to is handed through every call. -/
def collectConsistencyNodes (leaves : List Digest) (m first last : Nat) (known : Bool)
    (out : List ConsistencyNode) (h : 0 < m ∧ first+m ≤ last ∧ last ≤ leaves.length) :
    List ConsistencyNode :=
  let size := last-first
  if h1 : m=last-first then
    if !known then out++[⟨first,size,subtreeHash sha256 leaves first last (range_of_part h)⟩]
    else out
  else
    have hk := largestPow2Lt_pos (two_le_of_part h h1)
    have hk' := largestPow2Lt_lt (two_le_of_part h h1)
    let k := largestPow2Lt (last-first)
    if hm : m ≤ k then
      let out := collectConsistencyNodes leaves m first (first+k) known out (by omega)
      out++[⟨first+k,size-k,subtreeHash sha256 leaves (first+k) last (by omega)⟩]
    else
      let out := collectConsistencyNodes leaves (m-k) (first+k) last false out (by omega)
      out++[⟨first,k,subtreeHash sha256 leaves first (first+k) (by omega)⟩]
termination_by last-first

def consistencyProof (log : MerkleLog) (oldSize : Nat) : Option Transparency.ConsistencyProof :=
  let n := log.leaves.length
  if h : oldSize=0 ∨ oldSize ≥ n then none
  else
    let leafHashes := log.leaves.map (leafHash sha256)
    have hlen : leafHashes.length=log.leaves.length := List.length_map _
    some ⟨oldSize,n,subtreeHash sha256 leafHashes 0 oldSize (by omega),
      subtreeHash sha256 leafHashes 0 n (by omega),
      collectConsistencyNodes sha256 leafHashes oldSize 0 n true [] (by omega)⟩
end

variable (sha256 : Bytes → Digest)

theorem leafHash_eq : leafHash sha256=Merkle.leafHash sha256 := rfl

theorem subtreeHash_agrees (leaves : List Digest) (first last : Nat)
    (h : first < last ∧ last ≤ leaves.length) :
    subtreeHash sha256 leaves first last h =
      MerkleConsistency.subtreeHash sha256 leaves first last h := by
  induction first, last, h using subtreeHash.induct sha256 leaves with
  | case1 first last h h1 =>
    rw [subtreeHash,MerkleConsistency.subtreeHash,dif_pos h1,dif_pos h1]
    rfl
  | case2 first last h h1 hk hk' k ihleft ihright =>
    rw [subtreeHash,MerkleConsistency.subtreeHash,dif_neg h1,dif_neg h1]
    simp only [k,largestPow2Lt_eq] at ihleft ihright ⊢
    rw [ihleft,ihright]
    rfl

/-- Pushing leaves behind what was there before exactly the nodes that antiforgery returns. -/
theorem collectConsistencyNodes_eq (leaves : List Digest) (m first last : Nat) (known : Bool)
    (out : List ConsistencyNode) (h : 0 < m ∧ first+m ≤ last ∧ last ≤ leaves.length) :
    collectConsistencyNodes sha256 leaves m first last known out h =
      out++subproof sha256 m first last known leaves h := by
  induction m, first, last, known, h using MerkleConsistency.subproof.induct generalizing out with
  | case1 first last h =>
    rw [collectConsistencyNodes,subproof,dif_pos rfl,dif_pos rfl]
    simp
  | case2 first last known hk h =>
    rw [collectConsistencyNodes,subproof,dif_pos rfl,dif_pos rfl,if_neg hk,
      if_pos (by simpa using hk),subtreeHash_agrees]
  | case3 m first last known h h1 hk hk' k hm ih =>
    rw [collectConsistencyNodes,subproof,dif_neg h1,dif_neg h1]
    simp only [largestPow2Lt_eq]
    rw [dif_pos hm,dif_pos hm,ih,subtreeHash_agrees,List.append_assoc]
  | case4 m first last known h h1 hk hk' k hm ih =>
    rw [collectConsistencyNodes,subproof,dif_neg h1,dif_neg h1]
    simp only [largestPow2Lt_eq]
    rw [dif_neg hm,dif_neg hm,ih,subtreeHash_agrees,List.append_assoc]

theorem forestRoot_agrees (leaves : List Bytes) :
    forestRoot sha256 ⟨leaves⟩ =
      MerkleConsistency.forestRoot sha256 (MerkleTree.fromLeaves sha256 leaves) := by
  by_cases hne : leaves=[]
  · rw [forestRoot,dif_pos hne,hne]
    rfl
  · rw [forestRoot,dif_neg hne,MerkleConsistency.forestRoot_fromLeaves sha256 leaves hne]
    simp only [subtreeHash_agrees,leafHash_eq]
    rw [subtreeHash_eq]
    simp

theorem consistencyProof_of_lt (leaves : List Bytes) {m : Nat} (hm : 0 < m) (hn : m < leaves.length)
    (hbound : 0 < m ∧ 0+m ≤ leaves.length ∧
      leaves.length≤(leaves.map (Merkle.leafHash sha256)).length) :
    consistencyProof sha256 ⟨leaves⟩ m=some ⟨m,leaves.length,
      (rangeTree (leafAt leaves) 0 m).root (scheme sha256),
      (rangeTree (leafAt leaves) 0 leaves.length).root (scheme sha256),
      subproof sha256 m 0 leaves.length true (leaves.map (Merkle.leafHash sha256)) hbound⟩ := by
  have hcond : ¬ (m=0 ∨ m ≥ (MerkleLog.mk leaves).leaves.length) := by
    simp only [not_or]
    omega
  rw [consistencyProof,dif_neg hcond]
  simp only [subtreeHash_agrees,leafHash_eq,collectConsistencyNodes_eq,List.nil_append]
  rw [subtreeHash_eq,subtreeHash_eq]
  rfl

theorem consistencyProof_agrees (leaves : List Bytes) (m : Nat) :
    (consistencyProof sha256 ⟨leaves⟩ m).map (fun p => (p.oldSize, p.newSize, p.nodes)) =
      (MerkleConsistency.consistencyProof sha256 (MerkleTree.fromLeaves sha256 leaves) m).map
        fun p => (p.m, p.n, p.nodes) := by
  by_cases hm : 0 < m ∧ m < leaves.length
  · have hne : leaves≠[] := List.ne_nil_of_length_pos (by omega)
    have hbound : 0 < m ∧ 0+m ≤ leaves.length ∧
        leaves.length≤(leaves.map (Merkle.leafHash sha256)).length := by
      rw [List.length_map]
      omega
    rw [consistencyProof_of_lt sha256 leaves hm.1 hm.2 hbound]
    simp only [MerkleConsistency.consistencyProof,MerkleTree.fromLeaves,if_neg hne]
    rw [dif_neg (by omega)]
    rfl
  · have hcount : (MerkleTree.fromLeaves sha256 leaves).count=leaves.length := by
      rw [MerkleTree.fromLeaves]
      split_ifs with hnil
      · rw [hnil]
        rfl
      · rfl
    rw [consistencyProof,dif_pos (by simp only []; omega),MerkleConsistency.consistencyProof,
      dif_pos (by rw [hcount]; omega)]
    rfl

/-- Over every list of leaves the two crates have one forest root and, for every old size, one
consistency proof, and antiforgery's verifier accepts the proof with the roots handed out beside
it, which are the forest roots of the old and of the new log. -/
theorem transparency_agrees_with_antiforgery (leaves : List Bytes) (m : Nat) :
    forestRoot sha256 ⟨leaves⟩ =
      MerkleConsistency.forestRoot sha256 (MerkleTree.fromLeaves sha256 leaves) ∧
    (consistencyProof sha256 ⟨leaves⟩ m).map (fun p => (p.oldSize, p.newSize, p.nodes)) =
      (MerkleConsistency.consistencyProof sha256 (MerkleTree.fromLeaves sha256 leaves) m).map
        (fun p => (p.m, p.n, p.nodes)) ∧
    ((consistencyProof sha256 ⟨leaves⟩ m).isSome ↔ 0 < m ∧ m < leaves.length) ∧
    ∀ p, consistencyProof sha256 ⟨leaves⟩ m=some p →
      MerkleConsistency.verifyConsistency sha256 p.oldRoot p.newRoot
        ⟨p.oldSize,p.newSize,p.nodes⟩=true ∧
      forestRoot sha256 ⟨leaves.take m⟩=some p.oldRoot ∧
      forestRoot sha256 ⟨leaves⟩=some p.newRoot := by
  refine ⟨forestRoot_agrees sha256 leaves,consistencyProof_agrees sha256 leaves m,?_⟩
  by_cases hm : 0 < m ∧ m < leaves.length
  · have hne : leaves≠[] := List.ne_nil_of_length_pos (by omega)
    have hlen : (leaves.take m).length=m := by rw [List.length_take]; omega
    have hne' : leaves.take m≠[] := List.ne_nil_of_length_pos (by omega)
    have hbound : 0 < m ∧ 0+m ≤ leaves.length ∧
        leaves.length≤(leaves.map (Merkle.leafHash sha256)).length := by
      rw [List.length_map]
      omega
    rw [consistencyProof_of_lt sha256 leaves hm.1 hm.2 hbound]
    refine ⟨by simp [hm],fun p hp => ?_⟩
    cases hp
    refine ⟨verifyConsistency_subproof sha256 leaves m hm.1 hm.2 hbound,?_,?_⟩
    · rw [forestRoot_agrees,MerkleConsistency.forestRoot_fromLeaves sha256 _ hne',hlen,
        rangeTree_take leaves hm.1]
    · rw [forestRoot_agrees,MerkleConsistency.forestRoot_fromLeaves sha256 _ hne]
  · have hnone : consistencyProof sha256 ⟨leaves⟩ m=none := by
      rw [consistencyProof,dif_pos (by simp only []; omega)]
    rw [hnone]
    refine ⟨by simpa using hm,fun p hp => ?_⟩
    cases hp

end AetherX.MerkleBridge
