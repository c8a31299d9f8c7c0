import AetherX.PairLevels
import AetherX.Sha256
import Mathlib.Data.List.Induction
import Mathlib.Data.Nat.Bitwise
import Mathlib.Tactic.Ring

/-! The duplicate-last Merkle tree of the antiforgery crate, its inclusion proofs and
their verifier. The hash is a parameter; every security statement names the exact
messages that were hashed. -/
namespace AetherX.Merkle
open HashTree PairLevels Sha256 List

abbrev Bytes := List UInt8

def leafPrefix : UInt8 := 0x00
def nodePrefix : UInt8 := 0x01

def leafMessage (data : Bytes) : Bytes := leafPrefix::data
def parentMessage (left right : Digest) : Bytes := nodePrefix::(left.bytes++right.bytes)

inductive Side where
  | left | right
  deriving DecidableEq

structure ProofStep where
  sibling : Digest
  side : Side

structure Proof where
  index : Nat
  steps : List ProofStep

/- The fields are private in the source, so only fromLeaves builds one; count_eq is
   what it guarantees to the functions that index leaves by count. -/
structure MerkleTree where
  levels : List (List Digest)
  leaves : List Digest
  count : Nat
  count_eq : count=leaves.length

inductive Panic where
  | indexOutOfBounds (index len : Nat)
  deriving DecidableEq

def indexed {α : Type*} (xs : List α) (i : Nat) : Except Panic α :=
  match xs[i]? with
  | some a => .ok a
  | none => .error (.indexOutOfBounds i xs.length)

section
variable (sha256 : Bytes → Digest)

def leafHash (data : Bytes) : Digest := sha256 (leafMessage data)
def parentHash (left right : Digest) : Digest := sha256 (parentMessage left right)

def MerkleTree.fromLeaves (leaves : List Bytes) : MerkleTree :=
  if leaves=[] then ⟨[],[],0,rfl⟩ else
    let leafHashes := leaves.map (leafHash sha256)
    ⟨PairLevels.levels (parentHash sha256) leafHashes,leafHashes,leaves.length,by simp [leafHashes]⟩

def MerkleTree.root (t : MerkleTree) : Option Digest := t.levels.getLast?.bind head?

def proofSteps : List (List Digest) → Nat → Except Panic (List ProofStep)
  | lvl::next::rest, idx => do
    let sibling ← indexed lvl (idx ^^^ 1)
    let side := if idx%2=0 then Side.right else Side.left
    let steps ← proofSteps (next::rest) (idx >>> 1)
    .ok (⟨sibling,side⟩::steps)
  | _, _ => .ok []

def MerkleTree.proof (t : MerkleTree) (index : Nat) : Except Panic (Option Proof) :=
  if index ≥ t.count then .ok none else do
    let steps ← proofSteps t.levels index
    .ok (some ⟨index,steps⟩)

def climb (node : Digest) (step : ProofStep) : Digest :=
  match step.side with
  | .right => parentHash sha256 node step.sibling
  | .left => parentHash sha256 step.sibling node

def verifyProof (root : Digest) (data : Bytes) (proof : Proof) : Bool :=
  proof.steps.foldl (climb sha256) (leafHash sha256 data) == root
end

/- How the source prefixes its two kinds of messages. -/
def scheme (sha256 : Bytes → Digest) : Scheme Bytes Bytes Digest where
  hash := sha256
  leafMsg := leafMessage
  nodeMsg := parentMessage
  leafMsg_inj h := (cons.inj h).2
  nodeMsg_inj {l r l' r'} h := by
    have hb := (cons.inj h).2
    obtain ⟨hl,hr⟩ := append_inj hb (by rw [l.size,l'.size])
    exact ⟨Digest.ext_bytes hl,Digest.ext_bytes hr⟩
  separated d l r h := by
    have hp := (cons.inj h).1
    exact absurd hp (by decide)

variable (sha256 : Bytes → Digest)

/-- The tree behind the levels, with its payloads in place. -/
def paddedTree {D : Type*} (leaves : List D) : Option (LeafTree D) :=
  top LeafTree.node (leaves.map LeafTree.leaf)

/-- The bottom row of that tree: the leaves and the copies that padding adds. -/
def paddedLeaves {D : Type*} (leaves : List D) : List D :=
  (top (· ++ ·) (leaves.map fun d => [d])).getD []

theorem paddedTree_spec {D : Type*} {leaves : List D} (hne : leaves≠[]) :
    ∃ t, paddedTree leaves=some t ∧ LeafTree.Perfect (Nat.clog 2 leaves.length) t ∧
      t.leaves=paddedLeaves leaves := by
  have hrow : leaves.map LeafTree.leaf≠[] := by simpa using hne
  obtain ⟨t,ht,hp⟩ := top_perfect (k := 0) (leaves.map LeafTree.leaf) hrow (by simp [LeafTree.Perfect])
  refine ⟨t,ht,by simpa using hp,?_⟩
  have hmap := top_map LeafTree.node (· ++ ·) LeafTree.leaves (fun _ _ => rfl) _ hrow
  rw [ht] at hmap
  rw [paddedLeaves]
  simp only [map_map,Option.map_some] at hmap
  simp only [show (LeafTree.leaves ∘ LeafTree.leaf : D → List D)=fun d => [d] from rfl] at hmap
  simp [hmap]

theorem root_fromLeaves {leaves : List Bytes} (hne : leaves≠[]) :
    (MerkleTree.fromLeaves sha256 leaves).root =
      (paddedTree leaves).map (LeafTree.root (scheme sha256)) := by
  have hrow : leaves.map LeafTree.leaf≠[] := by simpa using hne
  have hmap := top_map LeafTree.node (parentHash sha256) (LeafTree.root (scheme sha256))
    (fun _ _ => rfl) _ hrow
  simp only [map_map] at hmap
  rw [MerkleTree.fromLeaves,if_neg hne]
  exact hmap

def treeInputs (leaves : List Bytes) : List Bytes :=
  ((paddedTree leaves).map (LeafTree.messages (scheme sha256))).getD []

theorem xor_one (n : Nat) : n ^^^ 1=2*(n/2)+(n+1)%2 := by
  have hd : (n ^^^ 1)/2=n/2 := by simp [Nat.xor_div_two]
  have hm : (n ^^^ 1)%2=(n+1)%2 := by simp [Nat.xor_mod_two_eq]
  omega

/- One level of the walk: the pair under the parent that idx / 2 names. -/
theorem padLast_pair {row : List Digest} {idx : Nat} (h : idx < row.length) :
    ∃ a b, (padLast row)[2*(idx/2)]? = some a ∧ (padLast row)[2*(idx/2)+1]? = some b := by
  have hlen := length_padLast row
  have ha : 2*(idx/2)<(padLast row).length := by omega
  have hb : 2*(idx/2)+1<(padLast row).length := by omega
  exact ⟨_,_,getElem?_eq_getElem ha,getElem?_eq_getElem hb⟩

/-- The walk from any element of a row never misses its sibling, takes one step a
level, and climbs to the top. -/
theorem proofSteps_climb (row : List Digest) (hne : row≠[]) :
    ∀ idx < row.length, ∃ steps d, proofSteps (PairLevels.levels (parentHash sha256) row) idx = .ok steps ∧
      steps.length=Nat.clog 2 row.length ∧ row[idx]? = some d ∧
      top (parentHash sha256) row=some (steps.foldl (climb sha256) d) := by
  refine fold_induction (parentHash sha256) ?_ ?_ row hne
  · intro a idx hidx
    obtain rfl : idx=0 := by simpa using hidx
    exact ⟨[],a,by simp [levels_of_le_one,proofSteps],by simp,rfl,top_singleton _ _⟩
  · intro row h ih idx hidx
    obtain ⟨a,b,ha,hb⟩ := padLast_pair hidx
    have hup := pairUp_getElem (parentHash sha256) (padLast row) (padLast_even row) ha hb
    have hlt : idx/2<(nextRow (parentHash sha256) row).length := by
      rw [length_nextRow]
      omega
    obtain ⟨steps,d,hs,hlen,hd,htop⟩ := ih (idx/2) hlt
    obtain rfl : parentHash sha256 a b=d := by
      rw [nextRow,hup] at hd
      exact Option.some.inj hd
    obtain ⟨next,rest,hl⟩ := exists_cons_of_ne_nil
      (levels_ne_nil (parentHash sha256) (nextRow (parentHash sha256) row))
    rw [hl] at hs
    have hrow := padLast_getElem hidx
    rw [levels_of_one_lt _ h,hl,top_of_one_lt _ h,htop,clog_turn h,← length_nextRow
      (parentHash sha256),← hlen]
    rcases Nat.mod_two_eq_zero_or_one idx with hpar | hpar
    · have hx : idx ^^^ 1=2*(idx/2)+1 := by rw [xor_one]; omega
      have hi : 2*(idx/2)=idx := by omega
      refine ⟨⟨b,.right⟩::steps,a,?_,by simp,by rw [← hrow,← hi,ha],by simp [climb]⟩
      simp [proofSteps,indexed,hx,hb,hpar,Nat.shiftRight_one,hs]
      rfl
    · have hx : idx ^^^ 1=2*(idx/2) := by rw [xor_one]; omega
      have hi : 2*(idx/2)+1=idx := by omega
      refine ⟨⟨a,.left⟩::steps,b,?_,by simp,by rw [← hrow,← hi,hb],by simp [climb]⟩
      simp [proofSteps,indexed,hx,ha,hpar,Nat.shiftRight_one,hs]
      rfl

/-- Every leaf has a proof of exactly ceil(log2 n) steps that its own payload passes,
found without an index panic; past the end there is none. -/
theorem proof_complete (leaves : List Bytes) (hne : leaves≠[]) (i : Nat) :
    (∀ h : i < leaves.length, ∃ p r,
      (MerkleTree.fromLeaves sha256 leaves).proof i = .ok (some p) ∧
      p.index=i ∧ p.steps.length=Nat.clog 2 leaves.length ∧
      (MerkleTree.fromLeaves sha256 leaves).root=some r ∧
      verifyProof sha256 r leaves[i] p=true) ∧
    (leaves.length ≤ i → (MerkleTree.fromLeaves sha256 leaves).proof i = .ok none) := by
  have hrow : leaves.map (leafHash sha256)≠[] := by simpa using hne
  constructor
  · intro h
    obtain ⟨steps,d,hs,hlen,hd,htop⟩ :=
      proofSteps_climb sha256 _ hrow i (by simpa using h)
    obtain rfl : leafHash sha256 leaves[i]=d := by
      simpa [getElem?_map,getElem?_eq_getElem h] using hd
    refine ⟨⟨i,steps⟩,steps.foldl (climb sha256) (leafHash sha256 leaves[i]),?_,rfl,
      by simpa using hlen,?_,?_⟩
    · simp [MerkleTree.proof,MerkleTree.fromLeaves,hne,hs,Nat.not_le.mpr h]
      rfl
    · rw [MerkleTree.fromLeaves,if_neg hne]
      exact htop
    · simp [verifyProof]
  · intro h
    simp [MerkleTree.proof,MerkleTree.fromLeaves,hne,h]

/- Three leaves pad their bottom row, so the last one is its own sibling. -/
theorem proof_complete_three :
    ∃ p r, (MerkleTree.fromLeaves Sha256.sha256 [[1],[2],[3]]).proof 2 = .ok (some p) ∧
      p.index=2 ∧ p.steps.length=2 ∧
      (MerkleTree.fromLeaves Sha256.sha256 [[1],[2],[3]]).root=some r ∧
      verifyProof Sha256.sha256 r [3] p=true := by
  have h := (proof_complete Sha256.sha256 [[1],[2],[3]] (by decide) 2).1 (by decide)
  rwa [show Nat.clog 2 [[1],[2],[(3 : UInt8)]].length=2 by decide] at h

/- The part of a tree that the verifier's steps rebuild above one leaf. -/
def pathOpening (data : Bytes) (steps : List ProofStep) : Opening Bytes Digest :=
  steps.foldl (fun o step =>
    match step.side with
    | .right => .fork o (.known step.sibling)
    | .left => .fork (.known step.sibling) o) (.leaf data)

def proofInputs (data : Bytes) (p : Proof) : List Bytes :=
  (pathOpening data p.steps).messages (scheme sha256)

/- The bottom row position that the sides spell out, least significant side first. -/
def position : List Side → Nat
  | [] => 0
  | .right::rest => 2*position rest
  | .left::rest => 2*position rest+1

theorem position_append (sides : List Side) (s : Side) :
    position (sides++[s])=position sides+2^sides.length*position [s] := by
  induction sides with
  | nil => simp [position]
  | cons t sides ih =>
    cases t <;> simp only [cons_append,position,ih,length_cons,Nat.pow_succ] <;> ring

theorem position_lt (sides : List Side) : position sides<2^sides.length := by
  induction sides with
  | nil => simp [position]
  | cons s sides ih => cases s <;> simp only [position,length_cons,Nat.pow_succ] <;> omega

theorem pathOpening_append (data : Bytes) (steps : List ProofStep) (step : ProofStep) :
    pathOpening data (steps++[step]) =
      match step.side with
      | .right => .fork (pathOpening data steps) (.known step.sibling)
      | .left => .fork (.known step.sibling) (pathOpening data steps) := by
  simp [pathOpening]

theorem root_pathOpening (data : Bytes) (steps : List ProofStep) :
    (pathOpening data steps).root (scheme sha256) =
      steps.foldl (climb sha256) (leafHash sha256 data) := by
  induction steps using reverseRecOn with
  | nil => rfl
  | append_singleton steps step ih =>
    rw [pathOpening_append,foldl_append,← ih]
    obtain ⟨sibling,side⟩ := step
    cases side <;> rfl

/-- A path that is part of a perfect tree has one step a level and ends at the leaf
its sides spell out. -/
theorem pathOpening_matches {h : Nat} {t : LeafTree Bytes} (hp : LeafTree.Perfect h t) {data : Bytes}
    {steps : List ProofStep} (hm : (pathOpening data steps).Matches (scheme sha256) t) :
    steps.length=h ∧ t.leaves[position (steps.map ProofStep.side)]? = some data := by
  induction steps using reverseRecOn generalizing h t with
  | nil =>
    obtain rfl : t = .leaf data := hm
    cases h with
    | zero => simp [position,LeafTree.leaves]
    | succ h => exact hp.elim
  | append_singleton steps step ih =>
    obtain ⟨sibling,side⟩ := step
    rw [pathOpening_append] at hm
    cases t with
    | leaf d => cases side <;> exact hm.elim
    | node l r =>
      cases h with
      | zero => exact hp.elim
      | succ h =>
        have hl := LeafTree.length_leaves hp.1
        rw [map_append,map_singleton,position_append,length_map]
        have hlt := position_lt (steps.map ProofStep.side)
        rw [length_map] at hlt
        cases side with
        | right =>
          obtain ⟨hlen,hget⟩ := ih hp.1 hm.1
          refine ⟨by simp [hlen],?_⟩
          simp only [position,Nat.mul_zero,Nat.add_zero,LeafTree.leaves]
          rw [getElem?_append_left (by rw [hl,← hlen]; exact hlt),hget]
        | left =>
          obtain ⟨hlen,hget⟩ := ih hp.2 hm.2
          refine ⟨by simp [hlen],?_⟩
          simp only [position,Nat.mul_zero,Nat.zero_add,Nat.mul_one,LeafTree.leaves]
          rw [getElem?_append_right (by rw [hl,← hlen]; omega),hl,← hlen,Nat.add_sub_cancel,
            hget]

theorem exists_pathOpening {h : Nat} {t : LeafTree Bytes} (hp : LeafTree.Perfect h t) (sides : List Side)
    (hs : sides.length=h) : ∃ data steps, steps.map ProofStep.side=sides ∧
      (pathOpening data steps).Matches (scheme sha256) t := by
  induction h generalizing t sides with
  | zero =>
    obtain rfl : sides=[] := by simpa using hs
    cases t with
    | leaf d => exact ⟨d,[],rfl,rfl⟩
    | node l r => exact hp.elim
  | succ h ih =>
    obtain rfl | ⟨init,s,rfl⟩ := eq_nil_or_concat sides
    · simp at hs
    · have hi : init.length=h := by simpa using hs
      cases t with
      | leaf d => exact hp.elim
      | node l r =>
        cases s with
        | right =>
          obtain ⟨data,steps,hsides,hm⟩ := ih hp.1 init hi
          refine ⟨data,steps++[⟨r.root (scheme sha256),.right⟩],by simp [hsides],?_⟩
          rw [pathOpening_append]
          exact ⟨hm,rfl⟩
        | left =>
          obtain ⟨data,steps,hsides,hm⟩ := ih hp.2 init hi
          refine ⟨data,steps++[⟨l.root (scheme sha256),.left⟩],by simp [hsides],?_⟩
          rw [pathOpening_append]
          exact ⟨rfl,hm⟩

/- The verifier never reads the index, so the index is bound only when it already
   names the leaf that the sides lead to. Payload and siblings are the adversary's. -/
theorem verifyProof_binds_index_iff (leaves : List Bytes) (hne : leaves≠[]) (root : Digest)
    (hr : (MerkleTree.fromLeaves sha256 leaves).root=some root)
    (index : Nat) (sides : List Side) :
    (∀ data p, p.index=index → p.steps.map ProofStep.side=sides →
      verifyProof sha256 root data p=true →
      (∃ h : p.index < leaves.length, leaves[p.index]=data) ∨
        Collides sha256 (treeInputs sha256 leaves++proofInputs sha256 data p)) ↔
    (sides.length≠Nat.clog 2 leaves.length ∨ Collides sha256 (treeInputs sha256 leaves) ∨
      ∃ h : index < leaves.length, some leaves[index]=(paddedLeaves leaves)[position sides]?) := by
  obtain ⟨t,ht,hperf,hleaves⟩ := paddedTree_spec hne
  have hroot : t.root (scheme sha256)=root := by
    rw [root_fromLeaves sha256 hne,ht] at hr
    exact Option.some.inj hr
  have hin : treeInputs sha256 leaves=t.messages (scheme sha256) := by simp [treeInputs,ht]
  rw [← hleaves,hin]
  constructor
  · intro hall
    by_cases hlen : sides.length=Nat.clog 2 leaves.length
    · obtain ⟨data,steps,hsides,hm⟩ := exists_pathOpening sha256 hperf sides hlen
      have hget := (pathOpening_matches sha256 hperf hm).2
      have hacc : verifyProof sha256 root data ⟨index,steps⟩=true := by
        simp only [verifyProof,← root_pathOpening,hm.root_eq,hroot,beq_self_eq_true]
      rcases hall data ⟨index,steps⟩ rfl hsides hacc with ⟨h,hd⟩ | hc
      · exact .inr (.inr ⟨h,by rw [← hsides,hget]; exact congrArg some hd⟩)
      · refine .inr (.inl (hc.mono ?_))
        exact append_subset.mpr ⟨List.Subset.refl _,hm.messages_subset⟩
    · exact .inl hlen
  · rintro hcond data p rfl rfl hacc
    have he : (pathOpening data p.steps).root (scheme sha256)=t.root (scheme sha256) := by
      rw [root_pathOpening,hroot]
      simpa [verifyProof] using hacc
    rcases Opening.matches_or_collides (scheme sha256) _ t he with hm | hc
    · obtain ⟨hlen,hget⟩ := pathOpening_matches sha256 hperf hm
      rcases hcond with hcond | hcond | ⟨h,hcond⟩
      · exact absurd (by simpa using hlen) hcond
      · exact .inr (hcond.mono (subset_append_left _ _))
      · rw [hget] at hcond
        exact .inl ⟨h,Option.some.inj hcond⟩
    · refine .inr (hc.mono ?_)
      intro x hx
      rw [mem_append] at hx ⊢
      exact hx.symm

theorem paddedTree_pair {D : Type*} (a b : D) :
    paddedTree [a,b]=some (.node (.leaf a) (.leaf b)) := by
  simp [paddedTree,top_of_one_lt,nextRow,padLast,pairUp,top_singleton]

theorem root_pair (a b : Bytes) : (MerkleTree.fromLeaves sha256 [a,b]).root =
    some (parentHash sha256 (leafHash sha256 a) (leafHash sha256 b)) := by
  rw [root_fromLeaves sha256 (by simp),paddedTree_pair]
  rfl

theorem treeInputs_pair (a b : Bytes) : treeInputs sha256 [a,b] =
    [parentMessage (leafHash sha256 a) (leafHash sha256 b),leafMessage a,leafMessage b] := by
  simp only [treeInputs,paddedTree_pair]
  rfl

/- SHA-256 really separates the three messages of the two-leaf tree below. -/
theorem one_two_distinct : ¬ Collides Sha256.sha256 (treeInputs Sha256.sha256 [[1],[2]]) := by
  rw [treeInputs_pair]
  apply not_collides_of_nodup
  decide +kernel

theorem verifyProof_binds_index_iff_pair :
    (paddedLeaves [[1],[(2 : UInt8)]])[position [.left]]? = some [2] ∧
    ∀ data p, p.index=1 → p.steps.map ProofStep.side=[.left] →
      verifyProof Sha256.sha256
        (parentHash Sha256.sha256 (leafHash Sha256.sha256 [1]) (leafHash Sha256.sha256 [2])) data p
        = true →
      (∃ h : p.index<[[1],[(2 : UInt8)]].length, [[1],[(2 : UInt8)]][p.index]=data) ∨
        Collides Sha256.sha256
          (treeInputs Sha256.sha256 [[1],[2]]++proofInputs Sha256.sha256 data p) := by
  have hleft : (paddedLeaves [[1],[(2 : UInt8)]])[position [.left]]? = some [2] := by
    simp [paddedLeaves,top_of_one_lt,nextRow,padLast,pairUp,top_singleton,position]
  refine ⟨hleft,(verifyProof_binds_index_iff Sha256.sha256 [[1],[2]] (by decide) _
    (root_pair _ _ _) 1 [.left]).mpr (.inr (.inr ⟨by decide,?_⟩))⟩
  rw [hleft]
  rfl

/- The honest proof of leaf 0 with its index changed to 1: leaf 0 passes as leaf 1. -/
theorem verifyProof_index_forged :
    ¬ ∀ (leaves : List Bytes) (root : Digest), leaves≠[] →
      (MerkleTree.fromLeaves Sha256.sha256 leaves).root=some root →
      ∀ data p, verifyProof Sha256.sha256 root data p=true →
        (∃ h : p.index < leaves.length, leaves[p.index]=data) ∨
          Collides Sha256.sha256
            (treeInputs Sha256.sha256 leaves++proofInputs Sha256.sha256 data p) := by
  intro hall
  have hbad := hall [[1],[2]] _ (by decide) (root_pair _ _ _) [1]
    ⟨1,[⟨leafHash Sha256.sha256 [2],.right⟩]⟩ (by simp [verifyProof,climb])
  rcases hbad with ⟨h,he⟩ | hc
  · simp at he
  · apply one_two_distinct
    refine hc.mono (append_subset.mpr ⟨List.Subset.refl _,?_⟩)
    rw [treeInputs_pair]
    intro x hx
    simp only [proofInputs,pathOpening,foldl_cons,foldl_nil,Opening.messages,
      append_nil,mem_cons,not_mem_nil,or_false] at hx
    rcases hx with rfl | rfl
    · exact mem_cons_self
    · exact mem_cons_of_mem _ mem_cons_self

end AetherX.Merkle
