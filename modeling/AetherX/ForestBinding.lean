import AetherX.Transparency

/-! What a forest root commits to. The shape of the tree follows the number of leaves, and the two
prefixes keep a leaf from passing for a parent, so one root stands for one list. -/
namespace AetherX.ForestBinding
open HashTree SplitTree Sha256 Merkle MerkleConsistency ConsistencyTies
variable (sha256 : Bytes → Digest)

def forestTree (log : List Bytes) : LeafTree Bytes := rangeTree (leafAt log) 0 log.length

theorem leaves_forestTree {log : List Bytes} (hne : log≠[]) : (forestTree log).leaves=log := by
  rw [forestTree,leaves_rangeTree _ _ _ (List.length_pos_iff.mpr hne),← List.range_eq_range']
  refine List.ext_getElem (by simp) fun i h h' => ?_
  simp [leafAt,h']

/- The two messages that two lists of one root must have hashed to one digest. -/
def forestClash (A B : List Bytes) : Option (Bytes × Bytes) :=
  (forestTree A).clash (scheme sha256) (forestTree B)

/-- One forest root belongs to one list of leaves, or two messages that leaf_hash and parent_hash
have hashed for it, read off the two lists, have one digest. -/
theorem forestRoot_binds (A B : List Bytes) (hA : A≠[]) (hB : B≠[])
    (h : forestRoot sha256 (MerkleTree.fromLeaves sha256 A) =
      forestRoot sha256 (MerkleTree.fromLeaves sha256 B)) :
    A=B ∨ ∃ x y, forestClash sha256 A B=some (x, y) ∧ x∈forestInputs sha256 A ∧
      y∈forestInputs sha256 B ∧ x≠y ∧ sha256 x=sha256 y := by
  rw [forestRoot_fromLeaves sha256 A hA,forestRoot_fromLeaves sha256 B hB] at h
  have hroot : (forestTree A).root (scheme sha256)=(forestTree B).root (scheme sha256) :=
    Option.some.inj h
  cases hclash : forestClash sha256 A B with
  | none =>
    have htree : forestTree A=forestTree B := LeafTree.eq_of_clash hclash
    rw [← leaves_forestTree hA,← leaves_forestTree hB,htree]
    exact .inl rfl
  | some pair => exact .inr ⟨pair.1,pair.2,rfl,LeafTree.clash_collides hroot hclash⟩

/-- A hash that gives every message one digest: a leaf against a parent. -/
theorem forestRoot_binds_constant : ∃ x y,
    forestClash (fun _ => Digest.zero) [[1]] [[1],[2]]=some (x, y) ∧ x≠y := by
  have hroot : forestRoot (fun _ => Digest.zero) (MerkleTree.fromLeaves (fun _ => Digest.zero) [[1]]) =
      forestRoot (fun _ => Digest.zero) (MerkleTree.fromLeaves (fun _ => Digest.zero) [[1],[2]]) := by
    rw [forestRoot_fromLeaves _ _ (List.cons_ne_nil _ _),forestRoot_fromLeaves _ _ (List.cons_ne_nil _ _)]
    rw [List.length_singleton,rangeTree_one,show [[(1 : UInt8)],[2]].length=2 from rfl,
      rangeTree_split _ _ (le_refl 2)]
    rfl
  rcases forestRoot_binds (fun _ => Digest.zero) [[1]] [[1],[2]] (List.cons_ne_nil _ _)
    (List.cons_ne_nil _ _) hroot with heq | ⟨x,y,hclash,-,-,hne,-⟩
  · exact absurd heq (by decide)
  · exact ⟨x,y,hclash,hne⟩

/- A step of the supervisor's proofs as one of antiforgery's. -/
def asStep (step : Transparency.ProofStep) : ProofStep :=
  ⟨step.sibling,if step.isRightSibling then .right else .left⟩

theorem climb_asStep :
    Transparency.climb sha256=fun node step => climb sha256 node (asStep step) := by
  funext node step
  rw [climb,asStep,Transparency.climb]
  cases step.isRightSibling <;> rfl

/- The induction takes the last step first, which is the fork at the top of the tree. -/
theorem mem_leaves_of_matches {t : LeafTree Bytes} {data : Bytes} {steps : List ProofStep}
    (hm : (pathOpening data steps).Matches (scheme sha256) t) : data∈t.leaves := by
  induction steps using List.reverseRecOn generalizing t with
  | nil =>
    obtain rfl : t = .leaf data := hm
    exact List.mem_singleton_self data
  | append_singleton steps step ih =>
    obtain ⟨sibling,side⟩ := step
    rw [pathOpening_append] at hm
    cases t with
    | leaf d => cases side <;> exact hm.elim
    | node l r =>
      rw [LeafTree.leaves,List.mem_append]
      cases side with
      | right => exact .inl (ih hm.1)
      | left => exact .inr (ih hm.2)

/-- Whatever steps and index a proof claims, what it shows to be in the supervisor's log is one of
the leaves, or two messages that were hashed for the log or by the verifier collide. -/
theorem inclusion_sound (log : Transparency.MerkleLog) (root : Digest) (data : Bytes)
    (proof : Transparency.InclusionProof) (hroot : log.forestRoot sha256=some root)
    (h : Transparency.verifyInclusion sha256 root data proof=true) :
    data∈log.leaves ∨ Collides sha256 (proofInputs sha256 data ⟨proof.index,proof.steps.map asStep⟩ ++
      forestInputs sha256 log.leaves) := by
  have hne : log.leaves≠[] := by
    intro hnil
    rw [Transparency.MerkleLog.forestRoot,dif_pos hnil] at hroot
    cases hroot
  rw [Transparency.forestRoot_eq sha256 log.leaves hne] at hroot
  rw [Transparency.verifyInclusion,beq_iff_eq,← Option.some.inj hroot,climb_asStep,← List.foldl_map,
    ← root_pathOpening] at h
  rcases Opening.matches_or_collides (scheme sha256) _ _ h with hm | hc
  · rw [← leaves_forestTree hne]
    exact .inl (mem_leaves_of_matches sha256 hm)
  · exact .inr hc

/- A leaf that is not in the log, under a hash that gives every message one digest. -/
theorem inclusion_sound_constant : Collides (fun _ => Digest.zero)
    (proofInputs (fun _ => Digest.zero) [2] ⟨0,[]⟩++forestInputs (fun _ => Digest.zero) [[1]]) :=
  (inclusion_sound (fun _ => Digest.zero) ⟨[[1]]⟩ Digest.zero [2] ⟨0,[]⟩
    (by rw [Transparency.forestRoot_eq _ _ (by decide),List.length_singleton,rangeTree_one]; rfl)
    rfl).resolve_left (by decide)

end AetherX.ForestBinding
