import AetherX.Merkle
import AetherX.SplitTree

/-! Forest roots and consistency proofs of the antiforgery crate: the prover, the
verifier, and that the verifier accepts whatever the prover hands out. -/
namespace AetherX.MerkleConsistency
open HashTree SplitTree Sha256 Merkle List

structure ConsistencyNode where
  start : Nat
  size : Nat
  hash : Digest

structure ConsistencyProof where
  m : Nat
  n : Nat
  nodes : List ConsistencyNode

/- The while loop of largestPow2Lt; k starts at 1 and only doubles. -/
def doubleBelow (x k : Nat) (hk : 0 < k) : Nat :=
  if k*2 < x then doubleBelow x (k*2) (by omega) else k
termination_by x-k

def largestPow2Lt (x : Nat) : Nat := doubleBelow x 1 (by omega)

theorem doubleBelow_eq (x k e : Nat) (hk : 0 < k) (he : k=2^e) (hx : k < x) :
    doubleBelow x k hk=split x := by
  induction k, hk using doubleBelow.induct x generalizing e with
  | case1 k hk hlt ih =>
    rw [doubleBelow,if_pos hlt]
    exact ih (e+1) (by rw [he,Nat.pow_succ]) hlt
  | case2 k hk hge =>
    rw [doubleBelow,if_neg hge]
    subst he
    exact (split_unique hx (by omega)).symm

theorem largestPow2Lt_eq {x : Nat} (hx : 2 ≤ x) : largestPow2Lt x=split x :=
  doubleBelow_eq x 1 0 (by omega) rfl (by omega)

theorem largestPow2Lt_pos {x : Nat} (hx : 2 ≤ x) : 0 < largestPow2Lt x := by
  rw [largestPow2Lt_eq hx]
  exact split_pos x

theorem largestPow2Lt_lt {x : Nat} (hx : 2 ≤ x) : largestPow2Lt x < x := by
  rw [largestPow2Lt_eq hx]
  exact split_lt hx

def isPowerOfTwo (m : Nat) : Bool := m != 0 && 2^Nat.log2 m == m

theorem isPowerOfTwo_iff (m : Nat) : isPowerOfTwo m=true ↔ ∃ e, m=2^e := by
  simp only [isPowerOfTwo,Bool.and_eq_true,bne_iff_ne,ne_eq,beq_iff_eq]
  constructor
  · rintro ⟨_,h⟩
    exact ⟨_,h.symm⟩
  · rintro ⟨e,rfl⟩
    exact ⟨(Nat.two_pow_pos e).ne',by rw [Nat.log2_two_pow]⟩

section
variable (sha256 : Bytes → Digest)

/- The bounds are what every caller passes; they keep the source's indexing and
   subtraction from panicking. -/
def subtreeHash (leaves : List Digest) (first last : Nat)
    (h : first < last ∧ last ≤ leaves.length) : Digest :=
  if h1 : last-first=1 then leaves[first]
  else
    have hk := largestPow2Lt_pos (show 2 ≤ last-first by omega)
    have hk' := largestPow2Lt_lt (show 2 ≤ last-first by omega)
    let k := largestPow2Lt (last-first)
    let left := subtreeHash leaves first (first+k) (by omega)
    let right := subtreeHash leaves (first+k) last (by omega)
    parentHash sha256 left right
termination_by last-first

def forestRoot (t : MerkleTree) : Option Digest :=
  if h : t.count=0 then none
  else some (subtreeHash sha256 t.leaves 0 t.count ⟨by omega,t.count_eq.le⟩)

def subproof (m first last : Nat) (known : Bool) (leaves : List Digest)
    (h : 0 < m ∧ first+m ≤ last ∧ last ≤ leaves.length) : List ConsistencyNode :=
  if h1 : m=last-first then
    if known then []
    else [⟨first,last-first,subtreeHash sha256 leaves first last (by omega)⟩]
  else
    have hk := largestPow2Lt_pos (show 2 ≤ last-first by omega)
    have hk' := largestPow2Lt_lt (show 2 ≤ last-first by omega)
    let k := largestPow2Lt (last-first)
    if hm : m ≤ k then
      subproof m first (first+k) known leaves (by omega) ++
        [⟨first+k,last-first-k,subtreeHash sha256 leaves (first+k) last (by omega)⟩]
    else
      subproof (m-k) (first+k) last false leaves (by omega) ++
        [⟨first,k,subtreeHash sha256 leaves first (first+k) (by omega)⟩]
termination_by last-first

def consistencyProof (t : MerkleTree) (m : Nat) : Option ConsistencyProof :=
  let n := t.count
  if h : m=0 ∨ m ≥ n then none
  else some ⟨m,n,subproof sha256 m 0 n true t.leaves (by have := t.count_eq; omega)⟩

def lookup (nodes : List ConsistencyNode) (first size : Nat) : Option Digest :=
  (nodes.find? fun n => n.start == first && n.size == size).map ConsistencyNode.hash

def reconstruct (first last : Nat) (nodes : List ConsistencyNode) : Option Digest :=
  match lookup nodes first (last-first) with
  | some hash => some hash
  | none =>
    if hs : last-first≤1 then none
    else
      have hk := largestPow2Lt_pos (show 2 ≤ last-first by omega)
      have hk' := largestPow2Lt_lt (show 2 ≤ last-first by omega)
      let k := largestPow2Lt (last-first)
      do
        let left ← reconstruct first (first+k) nodes
        let right ← reconstruct (first+k) last nodes
        some (parentHash sha256 left right)
termination_by last-first

def verifyConsistency (oldRoot newRoot : Digest) (proof : ConsistencyProof) : Bool :=
  let m := proof.m
  let n := proof.n
  if m=0 then
    match reconstruct sha256 0 n proof.nodes with
    | some r => r == newRoot
    | none => true
  else if m ≥ n then m == n && proof.nodes.isEmpty && oldRoot == newRoot
  else if isPowerOfTwo m then
    reconstruct sha256 0 n (proof.nodes++[⟨0,m,oldRoot⟩]) == some newRoot
  else
    reconstruct sha256 0 m proof.nodes == some oldRoot &&
      reconstruct sha256 0 n proof.nodes == some newRoot
end

variable (sha256 : Bytes → Digest)

def leafAt (leaves : List Bytes) (i : Nat) : Bytes := leaves.getD i []

variable (log : List Bytes)

/-- The forest hash of a range is the root of the split tree over that range. -/
theorem subtreeHash_eq (first last : Nat)
    (h : first < last ∧ last≤(log.map (leafHash sha256)).length) :
    subtreeHash sha256 (log.map (leafHash sha256)) first last h =
      (rangeTree (leafAt log) first (last-first)).root (scheme sha256) := by
  induction hs : last-first using Nat.strong_induction_on generalizing first last with
  | _ size ih =>
    subst hs
    rw [subtreeHash]
    split_ifs with h1
    · have hlt : first < log.length := by simp at h; omega
      rw [h1,rangeTree_one]
      simp [LeafTree.root,scheme,leafHash,leafAt,getElem?_eq_getElem hlt]
    · have h2 : 2 ≤ last-first := by omega
      have hk := split_pos (last-first)
      have hk' := split_lt h2
      rw [rangeTree_split _ _ h2]
      simp only [largestPow2Lt_eq h2]
      have hl := ih (split (last-first)) hk' first (first+split (last-first))
        (by omega) (by omega)
      have hr := ih (last-first-split (last-first)) (by omega)
        (first+split (last-first)) last (by omega) (by omega)
      rw [hl,hr]
      rfl

theorem reconstruct_eq (first last : Nat) (nodes : List ConsistencyNode) (h : first < last) :
    reconstruct sha256 first last nodes =
      (walk (lookup nodes) first (last-first)).map (Opening.root (scheme sha256)) := by
  induction hs : last-first using Nat.strong_induction_on generalizing first last with
  | _ size ih =>
    subst hs
    rw [reconstruct,walk]
    cases hl : lookup nodes first (last-first) with
    | some d => rfl
    | none =>
      by_cases h1 : last-first≤1
      · simp [h1,show ¬ 2 ≤ last-first by omega]
      · have h2 : 2 ≤ last-first := by omega
        have hk := split_pos (last-first)
        have hk' := split_lt h2
        simp only [h1,h2,largestPow2Lt_eq h2,dite_false,if_true]
        have hl := ih (split (last-first)) hk' first (first+split (last-first))
          (by omega) (by omega)
        have hr := ih (last-first-split (last-first)) (by omega)
          (first+split (last-first)) last (by omega) (by omega)
        rw [hl,hr]
        cases walk (D := Bytes) (lookup nodes) first (split (last-first)) <;>
          cases walk (D := Bytes) (lookup nodes) (first+split (last-first))
            (last-first-split (last-first)) <;>
          simp [Opening.root,scheme,parentHash]

theorem forestRoot_fromLeaves (hne : log≠[]) :
    forestRoot sha256 (MerkleTree.fromLeaves sha256 log) =
      some ((rangeTree (leafAt log) 0 log.length).root (scheme sha256)) := by
  have hpos := length_pos_iff.mpr hne
  simp only [forestRoot,MerkleTree.fromLeaves,if_neg hne,hpos.ne',dite_false]
  rw [subtreeHash_eq]
  rfl

def hasNode (nodes : List ConsistencyNode) (first size : Nat) : Bool :=
  (lookup nodes first size).isSome

variable {nodes : List ConsistencyNode}

theorem hasNode_of_mem {n : ConsistencyNode} (h : n∈nodes) :
    hasNode nodes n.start n.size=true := by
  simp only [hasNode,lookup,Option.isSome_map,find?_isSome]
  exact ⟨n,h,by simp⟩

/-- Every node carries the hash of the very range it names. -/
def Honest (log : List Bytes) (nodes : List ConsistencyNode) : Prop :=
  ∀ n∈nodes, n.hash=(rangeTree (leafAt log) n.start n.size).root (scheme sha256)

theorem lookup_of_honest {log : List Bytes} (h : Honest sha256 log nodes) {first size : Nat}
    (hc : hasNode nodes first size=true) :
    lookup nodes first size=some ((rangeTree (leafAt log) first size).root (scheme sha256)) := by
  obtain ⟨n,hn,_⟩ := Option.map_eq_some_iff.mp (Option.eq_some_of_isSome hc)
  have hp := find?_some hn
  simp only [Bool.and_eq_true,beq_iff_eq] at hp
  rw [lookup,hn,Option.map_some,h n (mem_of_find?_eq_some hn),hp.1,hp.2]

theorem reconstruct_of_honest {log : List Bytes} (h : Honest sha256 log nodes) {n : Nat}
    (hpos : 0 < n) (hc : Coverable (hasNode nodes) 0 n) :
    reconstruct sha256 0 n nodes=some ((rangeTree (leafAt log) 0 n).root (scheme sha256)) := by
  rw [reconstruct_eq sha256 0 n nodes hpos]
  obtain ⟨rs,hrs⟩ := hc
  rcases walk_spec (scheme sha256) (lookup nodes) hpos with ⟨hn,_⟩ | ⟨rs',o,hrs',ho,hm⟩
  · rw [show stops (hasNode nodes) 0 n=none from hn] at hrs
    exact absurd hrs (by simp)
  · have hmatch : o.Matches (scheme sha256) (rangeTree (leafAt log) 0 n) := by
      rw [hm]
      intro r hr
      exact lookup_of_honest sha256 h (covered_of_mem_stops hpos hrs' hr)
    simp [ho,hmatch.root_eq]

theorem honest_append {log : List Bytes} {nodes' : List ConsistencyNode}
    (h : Honest sha256 log nodes) (h' : Honest sha256 log nodes') :
    Honest sha256 log (nodes++nodes') := by
  intro n hn
  exact (mem_append.mp hn).elim (h n) (h' n)

theorem honest_subtree (first last size : Nat) (hs : size=last-first)
    (h : first < last ∧ last≤(log.map (leafHash sha256)).length) :
    Honest sha256 log
      [⟨first,size,subtreeHash sha256 (log.map (leafHash sha256)) first last h⟩] := by
  intro n hn
  rw [mem_singleton.mp hn,hs]
  exact subtreeHash_eq sha256 log first last h

theorem subproof_honest (m first last : Nat) (known : Bool)
    (h : 0 < m ∧ first+m ≤ last ∧ last≤(log.map (leafHash sha256)).length) :
    Honest sha256 log (subproof sha256 m first last known (log.map (leafHash sha256)) h) := by
  induction m, first, last, known, h using subproof.induct with
  | case1 first last h =>
    rw [subproof,dif_pos rfl,if_pos rfl]
    exact fun n hn => absurd hn (by simp)
  | case2 first last known hk h =>
    rw [subproof,dif_pos rfl,if_neg hk]
    exact honest_subtree sha256 log first last _ rfl _
  | case3 m first last known h h1 hk hk' k hm ih =>
    rw [subproof,dif_neg h1,dif_pos hm]
    exact honest_append sha256 ih (honest_subtree sha256 log _ _ _ (by omega) _)
  | case4 m first last known h h1 hk hk' k hm ih =>
    rw [subproof,dif_neg h1,dif_neg hm]
    exact honest_append sha256 ih (honest_subtree sha256 log _ _ _ (by omega) _)

/- The proof's nodes cover the whole range once a left-out old root is supplied, and
   cover the old part of it unless that part is itself the left-out root. A node is
   left out only where the old part fills a range of power-of-two size. -/
theorem subproof_covers (leaves : List Digest) (m first last : Nat) (known : Bool)
    (h : 0 < m ∧ first+m ≤ last ∧ last ≤ leaves.length) (covered : Nat → Nat → Bool)
    (hc : ∀ n∈subproof sha256 m first last known leaves h, covered n.start n.size=true)
    (hfill : known=true → m < last-first ∨ isPowerOfTwo (last-first)=true) :
    ((known=true → isPowerOfTwo m=true → covered first m=true) →
      Coverable covered first (last-first)) ∧
    ((known=true → isPowerOfTwo m=false) → Coverable covered first m) := by
  induction m, first, last, known, h using subproof.induct with
  | case1 first last h =>
    have hpow : isPowerOfTwo (last-first)=true := by
      rcases hfill rfl with hlt | hpow
      · omega
      · exact hpow
    constructor
    · intro hk
      exact .of_covered (hk rfl hpow)
    · intro hno
      rw [hno rfl] at hpow
      exact absurd hpow (by simp)
  | case2 first last known hk h =>
    rw [subproof,dif_pos rfl,if_neg hk] at hc
    have hcov := Coverable.of_covered (hc _ (mem_singleton_self _))
    exact ⟨fun _ => hcov,fun _ => hcov⟩
  | case3 m first last known h h1 hk hk' k hm ih =>
    rw [subproof,dif_neg h1,dif_pos hm] at hc
    have h2 : 2 ≤ last-first := by omega
    have hkeq : k=split (last-first) := largestPow2Lt_eq h2
    rw [Nat.add_sub_cancel_left] at ih
    obtain ⟨hwhole,hpart⟩ := ih (fun n hn => hc n (mem_append_left _ hn))
      fun _ => .inr ((isPowerOfTwo_iff k).mpr ⟨_,hkeq⟩)
    have hright := Coverable.of_covered (hc _ (mem_append_right _ (mem_singleton_self _)))
    refine ⟨?_,hpart⟩
    intro hkn
    exact .of_split h2 (hkeq ▸ hwhole hkn) (hkeq ▸ hright)
  | case4 m first last known h h1 hk hk' k hm ih =>
    rw [subproof,dif_neg h1,dif_neg hm] at hc
    have h2 : 2 ≤ last-first := by omega
    have hkeq : k=split (last-first) := largestPow2Lt_eq h2
    obtain ⟨hwhole,hpart⟩ := ih (fun n hn => hc n (mem_append_left _ hn)) (by simp)
    have hleft := Coverable.of_covered (hc _ (mem_append_right _ (mem_singleton_self _)))
    constructor
    · intro _
      refine .of_split h2 (hkeq ▸ hleft) ?_
      have hw := hwhole (by simp)
      rwa [hkeq,← Nat.sub_sub] at hw
    · intro _
      have hsplit : split m=k := hkeq ▸ split_stable (by omega) (by omega)
      refine .of_split (by omega) ?_ ?_
      · rw [hsplit]
        exact hleft
      · rw [hsplit]
        exact hpart (by simp)

theorem leafAt_take {m i : Nat} (h : i < m) : leafAt (log.take m) i=leafAt log i := by
  simp [leafAt,h]

/-- The verifier accepts what the prover collects, against the hashes of the two ranges. -/
theorem verifyConsistency_subproof (m : Nat) (hm : 0 < m) (hn : m < log.length)
    (hbound : 0 < m ∧ 0+m ≤ log.length ∧ log.length≤(log.map (leafHash sha256)).length) :
    verifyConsistency sha256 ((rangeTree (leafAt log) 0 m).root (scheme sha256))
      ((rangeTree (leafAt log) 0 log.length).root (scheme sha256))
      ⟨m,log.length,subproof sha256 m 0 log.length true (log.map (leafHash sha256)) hbound⟩ =
        true := by
  have hhon := subproof_honest sha256 log m 0 log.length true hbound
  have hcov := subproof_covers sha256 (log.map (leafHash sha256)) m 0 log.length true hbound
  generalize subproof sha256 m 0 log.length true _ hbound=nodes at hhon hcov ⊢
  rw [verifyConsistency,if_neg (by simpa using hm.ne'),if_neg (by simpa using hn)]
  cases hp : isPowerOfTwo m with
  | true =>
    let injected : ConsistencyNode := ⟨0,m,(rangeTree (leafAt log) 0 m).root (scheme sha256)⟩
    have hinj : Honest sha256 log [injected] := by
      intro n hn
      rw [mem_singleton.mp hn]
    obtain ⟨hwhole,_⟩ := hcov (hasNode (nodes++[injected]))
      (fun n hn => hasNode_of_mem (mem_append_left _ hn)) (fun _ => .inl hn)
    have hall : Coverable (hasNode (nodes++[injected])) 0 log.length :=
      hwhole fun _ _ => hasNode_of_mem (n := injected) (by simp)
    have hrec := reconstruct_of_honest sha256 (honest_append sha256 hhon hinj) (by omega) hall
    simp only [if_true,injected] at hrec ⊢
    rw [hrec,beq_self_eq_true]
  | false =>
    obtain ⟨hwhole,hpart⟩ := hcov (hasNode nodes) (fun n hn => hasNode_of_mem hn)
      (fun _ => .inl hn)
    have hall : Coverable (hasNode nodes) 0 log.length :=
      hwhole fun _ h => absurd (hp ▸ h) (by simp)
    have hnew := reconstruct_of_honest sha256 hhon (by omega) hall
    have hold := reconstruct_of_honest sha256 hhon hm (hpart fun _ => hp)
    simp only [Bool.false_eq_true,if_false]
    rw [hold,hnew,beq_self_eq_true,beq_self_eq_true,Bool.true_and]

theorem rangeTree_take {m : Nat} (hm : 0 < m) :
    rangeTree (leafAt (log.take m)) 0 m=rangeTree (leafAt log) 0 m :=
  (rangeTree_inj 0 m hm).mpr fun i _ hi => leafAt_take log (by omega)

/-- Every honest consistency proof is produced and accepted. -/
theorem consistencyProof_complete (log : List Bytes) (m : Nat) (hm : 0 < m)
    (hn : m < log.length) :
    ∃ p oldRoot newRoot,
      consistencyProof sha256 (MerkleTree.fromLeaves sha256 log) m=some p ∧
      forestRoot sha256 (MerkleTree.fromLeaves sha256 (log.take m))=some oldRoot ∧
      forestRoot sha256 (MerkleTree.fromLeaves sha256 log)=some newRoot ∧
      verifyConsistency sha256 oldRoot newRoot p=true := by
  have hne : log≠[] := ne_nil_of_length_pos (by omega)
  have hne' : log.take m≠[] := ne_nil_of_length_pos (by rw [length_take]; omega)
  have hlen : (log.take m).length=m := by rw [length_take]; omega
  have hbound : 0 < m ∧ 0+m ≤ log.length ∧ log.length≤(log.map (leafHash sha256)).length := by
    rw [length_map]
    omega
  refine ⟨⟨m,log.length,subproof sha256 m 0 log.length true _ hbound⟩,_,_,?_,
    forestRoot_fromLeaves sha256 _ hne',forestRoot_fromLeaves sha256 _ hne,?_⟩
  · simp only [consistencyProof,MerkleTree.fromLeaves,if_neg hne]
    rw [dif_neg (by omega)]
  · rw [hlen,rangeTree_take log hm]
    exact verifyConsistency_subproof sha256 log m hm hn hbound

theorem consistencyProof_complete_five :
    ∃ p oldRoot newRoot,
      consistencyProof Sha256.sha256
        (MerkleTree.fromLeaves Sha256.sha256 [[1],[2],[3],[4],[5]]) 3=some p ∧
      forestRoot Sha256.sha256
        (MerkleTree.fromLeaves Sha256.sha256 [[1],[2],[3]])=some oldRoot ∧
      forestRoot Sha256.sha256
        (MerkleTree.fromLeaves Sha256.sha256 [[1],[2],[3],[4],[5]])=some newRoot ∧
      verifyConsistency Sha256.sha256 oldRoot newRoot p=true :=
  consistencyProof_complete Sha256.sha256 [[1],[2],[3],[4],[5]] 3 (by decide) (by decide)

end AetherX.MerkleConsistency
