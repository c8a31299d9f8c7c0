import AetherX.MerkleConsistency

/-! What an accepted consistency proof ties together. The verifier resolves ranges by
position only, so a proof speaks about the old log just on the ranges where the walk
for the old root and the walk for the new root stop at the same node. -/
namespace AetherX.ConsistencyTies
open HashTree SplitTree Sha256 Merkle MerkleConsistency

def positions (p : ConsistencyProof) : List (Nat × Nat) := p.nodes.map fun n => (n.start, n.size)

def occurs (pos : List (Nat × Nat)) (first size : Nat) : Bool := decide ((first, size)∈pos)

/- A power-of-two old root is not rebuilt: it is itself the only range of its walk,
   and it is appended to the positions of the new walk. -/
def oldStops (m : Nat) (pos : List (Nat × Nat)) : Option (List (Nat × Nat)) :=
  if isPowerOfTwo m then some [(0, m)] else stops (occurs pos) 0 m

def newStops (m n : Nat) (pos : List (Nat × Nat)) : Option (List (Nat × Nat)) :=
  stops (occurs (if isPowerOfTwo m then pos++[(0, m)] else pos)) 0 n

/-- Both walks complete on these positions. -/
def Covers (m n : Nat) (pos : List (Nat × Nat)) : Prop :=
  (oldStops m pos).isSome ∧ (newStops m n pos).isSome

/- The new walk stops at this range too, and not at a node that shadows the
   appended old root. -/
def tied (m n : Nat) (pos : List (Nat × Nat)) (r : Nat × Nat) : Bool :=
  decide (r∈(newStops m n pos).getD []) && !(isPowerOfTwo m && occurs pos 0 m)

def tiedRanges (m n : Nat) (pos : List (Nat × Nat)) : List (Nat × Nat) :=
  ((oldStops m pos).getD []).filter fun r => tied m n pos r

def untiedRanges (m n : Nat) (pos : List (Nat × Nat)) : List (Nat × Nat) :=
  ((oldStops m pos).getD []).filter fun r => !tied m n pos r

variable (nodes : List ConsistencyNode)

theorem hasNode_eq_occurs : hasNode nodes = occurs (nodes.map fun n => (n.start, n.size)) := by
  funext first size
  rw [Bool.eq_iff_iff]
  simp [hasNode,lookup,occurs,Option.isSome_map,List.find?_isSome]

theorem lookup_append (m : Nat) (root : Digest) (first size : Nat) : lookup (nodes++[⟨0,m,root⟩]) first size =
      if hasNode nodes first size then lookup nodes first size
      else if first=0 ∧ size=m then some root else none := by
  simp only [lookup,hasNode,List.find?_append,List.find?_singleton,Option.isSome_map]
  cases nodes.find? fun n => n.start == first && n.size == size with
  | some n => simp
  | none =>
    by_cases h : first=0 ∧ size=m
    · obtain ⟨rfl,rfl⟩ := h
      simp
    · have h' : ¬ (0=first ∧ m=size) := fun hh => h ⟨hh.1.symm,hh.2.symm⟩
      simp [h,h']

theorem lookup_map (pos : List (Nat × Nat)) (g : Nat × Nat → Digest) (first size : Nat)
    (h : (first, size)∈pos) :
    lookup (pos.map fun q => ⟨q.1,q.2,g q⟩) first size=some (g (first, size)) := by
  induction pos with
  | nil => simp at h
  | cons q pos ih =>
    by_cases hq : q=(first, size)
    · subst hq
      simp [lookup]
    · have hne : (q.1 == first && q.2 == size)=false := by
        rw [Bool.eq_false_iff]
        intro hh
        simp only [Bool.and_eq_true,beq_iff_eq] at hh
        exact hq (Prod.ext hh.1 hh.2)
      have hrest := ih ((List.mem_cons.mp h).resolve_left (Ne.symm hq))
      simpa [lookup,hne] using hrest

variable (sha256 : Bytes → Digest)

def forestInputs (log : List Bytes) : List Bytes :=
  (rangeTree (leafAt log) 0 log.length).messages (scheme sha256)

def rebuiltInputs (nodes : List ConsistencyNode) (n : Nat) : List Bytes :=
  ((walk (lookup nodes) 0 n).map (Opening.messages (scheme sha256))).getD []

def verifierNodes (oldRoot : Digest) (p : ConsistencyProof) : List ConsistencyNode :=
  if isPowerOfTwo p.m then p.nodes++[⟨0,p.m,oldRoot⟩] else p.nodes

def consistencyInputs (oldRoot : Digest) (p : ConsistencyProof) : List Bytes :=
  (if isPowerOfTwo p.m then [] else rebuiltInputs sha256 p.nodes p.m) ++
    rebuiltInputs sha256 (verifierNodes oldRoot p) p.n

def Agree (A B : List Bytes) (r : Nat × Nat) : Prop :=
  ∀ i, r.1 ≤ i → i < r.1+r.2 → leafHash sha256 (leafAt A i)=leafHash sha256 (leafAt B i)

theorem stops_verifierNodes (oldRoot : Digest) (p : ConsistencyProof) :
    stops (hasNode (verifierNodes oldRoot p)) 0 p.n=newStops p.m p.n (positions p) := by
  rw [newStops,hasNode_eq_occurs,verifierNodes]
  cases isPowerOfTwo p.m <;> simp [positions]

/-- A reconstruction that reaches a log's root stopped only at that log's subtree
hashes, unless it collided with the log's own hashing. -/
theorem reconstruct_sound (leaf : Nat → Bytes) (nodes : List ConsistencyNode) {n : Nat}
    (hn : 0 < n) (h : reconstruct sha256 0 n nodes =
      some ((rangeTree leaf 0 n).root (scheme sha256))) :
    ∃ rs, stops (hasNode nodes) 0 n=some rs ∧
      ((∀ r∈rs, lookup nodes r.1 r.2=some ((rangeTree leaf r.1 r.2).root (scheme sha256))) ∨
        Collides sha256 (rebuiltInputs sha256 nodes n ++
          (rangeTree leaf 0 n).messages (scheme sha256))) := by
  rw [reconstruct_eq sha256 0 n nodes hn] at h
  rcases walk_spec (D := Bytes) (scheme sha256) (lookup nodes) hn with
    ⟨_,hw⟩ | ⟨rs,o,hrs,ho,hm⟩
  · rw [Nat.sub_zero,hw] at h
    exact absurd h (by simp)
  · refine ⟨rs,hrs,?_⟩
    rw [Nat.sub_zero,ho,Option.map_some,Option.some.injEq] at h
    simp only [rebuiltInputs,ho,Option.map_some,Option.getD_some,← hm]
    exact Opening.matches_or_collides (scheme sha256) o _ h

variable {rs : List (Nat × Nat)} {A B : List Bytes} {r : Nat × Nat}

/-- Conversely, subtree hashes at all the stops rebuild the root and hash nothing new. -/
theorem reconstruct_of_stops (leaf : Nat → Bytes) (nodes : List ConsistencyNode) {n : Nat}
    (hn : 0 < n) (hrs : stops (hasNode nodes) 0 n=some rs)
    (h : ∀ r∈rs, lookup nodes r.1 r.2=some ((rangeTree leaf r.1 r.2).root (scheme sha256))) :
    reconstruct sha256 0 n nodes=some ((rangeTree leaf 0 n).root (scheme sha256)) ∧
      rebuiltInputs sha256 nodes n ⊆ (rangeTree leaf 0 n).messages (scheme sha256) := by
  rw [reconstruct_eq sha256 0 n nodes hn]
  rcases walk_spec (D := Bytes) (scheme sha256) (lookup nodes) hn with
    ⟨hno,_⟩ | ⟨rs',o,hrs',ho,hm⟩
  · rw [show stops (hasNode nodes) 0 n=none from hno] at hrs
    exact absurd hrs (by simp)
  · obtain rfl : rs'=rs := Option.some.inj (hrs'.symm.trans hrs)
    have hmatch := (hm leaf).mpr h
    constructor
    · simp [ho,hmatch.root_eq]
    · simpa [rebuiltInputs,ho] using hmatch.messages_subset

theorem agree_of_roots (hpos : 0 < r.2)
    (h : (rangeTree (leafAt A) r.1 r.2).root (scheme sha256)=(rangeTree (leafAt B) r.1 r.2).root (scheme sha256)) :
    Agree sha256 A B r ∨ Collides sha256 ((rangeTree (leafAt A) r.1 r.2).messages (scheme sha256) ++
      (rangeTree (leafAt B) r.1 r.2).messages (scheme sha256)) := by
  rcases LeafTree.eq_or_collides (scheme sha256) _ _ h with he | hc
  · refine .inl fun i hlo hhi => ?_
    rw [(rangeTree_inj r.1 r.2 hpos).mp he i hlo hhi]
  · exact .inr hc

theorem roots_of_agree (hpos : 0 < r.2) (h : Agree sha256 A B r) : (rangeTree (leafAt A) r.1 r.2).root (scheme sha256) =
      (rangeTree (leafAt B) r.1 r.2).root (scheme sha256) :=
  rangeTree_root_congr (scheme sha256) r.1 r.2 hpos h

theorem leafHashes_prefix_iff (hle : A.length ≤ B.length) :
    A.map (leafHash sha256) <+: B.map (leafHash sha256) ↔ Agree sha256 A B (0, A.length) := by
  rw [List.prefix_iff_getElem?]
  constructor
  · intro h i _ hi
    have hiA : i < A.length := by simpa using hi
    have := h i (by simpa using hiA)
    simpa [leafAt,List.getElem?_eq_getElem hiA,List.getElem?_eq_getElem (hiA.trans_le hle)]
      using this.symm
  · intro h i hi
    have hiA : i < A.length := by simpa using hi
    have := h i (by simp) (by simpa using hiA)
    simpa [leafAt,List.getElem?_eq_getElem hiA,List.getElem?_eq_getElem (hiA.trans_le hle)]
      using this.symm

theorem verifyConsistency_iff (oldRoot newRoot : Digest) (p : ConsistencyProof)
    (hm : 0 < p.m) (hmn : p.m < p.n) :
    verifyConsistency sha256 oldRoot newRoot p=true ↔
      (isPowerOfTwo p.m=false → reconstruct sha256 0 p.m p.nodes=some oldRoot) ∧
      reconstruct sha256 0 p.n (verifierNodes oldRoot p)=some newRoot := by
  rw [verifyConsistency,if_neg (by simpa using hm.ne'),if_neg (by simpa using hmn)]
  cases hp : isPowerOfTwo p.m <;> simp [verifierNodes,hp]

theorem oldStops_cover {m : Nat} (hm : 0 < m) {pos : List (Nat × Nat)}
    (h : oldStops m pos=some rs) :
    (∀ i < m, ∃ r∈rs, r.1 ≤ i ∧ i < r.1+r.2) ∧ ∀ r∈rs, 0 < r.2 ∧ r.1+r.2 ≤ m := by
  have hc : (∀ i, 0 ≤ i → i<0+m → ∃ r∈rs, r.1 ≤ i ∧ i < r.1+r.2) ∧
      ∀ r∈rs, 0 < r.2 ∧ 0 ≤ r.1 ∧ r.1+r.2≤0+m := by
    rw [oldStops] at h
    split_ifs at h
    · rw [← Option.some.inj h]
      exact stop_covers hm
    · exact stops_cover hm h
  refine ⟨fun i hi => hc.1 i (by omega) (by omega),fun r hr => ?_⟩
  have := hc.2 r hr
  omega

/-- The old log's trees over its stops are parts of the old log's own tree. -/
theorem oldStops_messages (hA : 0 < A.length) {pos : List (Nat × Nat)}
    (h : oldStops A.length pos=some rs) (hr : r∈rs) :
    (rangeTree (leafAt A) r.1 r.2).messages (scheme sha256) ⊆ forestInputs sha256 A := by
  rw [oldStops] at h
  split_ifs at h
  · rw [← Option.some.inj h] at hr
    rw [List.mem_singleton.mp hr]
    exact List.Subset.refl _
  · exact stops_messages (scheme sha256) (leafAt A) hA h hr

section
variable {sha256} {A B : List Bytes} {p : ConsistencyProof}

/- Unless something collided, the walk for the old root completes, and where it is tied it stops
   at subtree hashes of A. -/
theorem oldStops_lookup (hA : 0 < A.length) (hpm : p.m=A.length)
    (hold : isPowerOfTwo p.m=false → reconstruct sha256 0 p.m p.nodes =
      some ((rangeTree (leafAt A) 0 A.length).root (scheme sha256)))
    (hno : ¬ Collides sha256 (forestInputs sha256 A++forestInputs sha256 B ++
      consistencyInputs sha256 ((rangeTree (leafAt A) 0 A.length).root (scheme sha256)) p)) :
    ∃ rs, oldStops p.m (positions p)=some rs ∧ ∀ r∈rs, tied p.m p.n (positions p) r →
      lookup (verifierNodes ((rangeTree (leafAt A) 0 A.length).root (scheme sha256)) p) r.1 r.2 =
        some ((rangeTree (leafAt A) r.1 r.2).root (scheme sha256)) := by
  cases hp : isPowerOfTwo p.m with
  | true =>
    refine ⟨[(0, p.m)],by simp [oldStops,hp],fun r hr ht => ?_⟩
    obtain rfl := List.mem_singleton.mp hr
    simp only [tied,hp,Bool.true_and,Bool.and_eq_true,Bool.not_eq_true'] at ht
    have hnot : hasNode p.nodes 0 p.m=false := by
      rw [hasNode_eq_occurs]
      exact ht.2
    rw [verifierNodes,if_pos hp,lookup_append,hnot,hpm]
    simp
  | false =>
    have hrec := hold hp
    rw [hpm] at hrec
    obtain ⟨rs,hrs,hlook | hc⟩ := reconstruct_sound sha256 (leafAt A) _ hA hrec
    · refine ⟨rs,?_,fun r hr _ => ?_⟩
      · rw [oldStops,if_neg (by simp [hp]),hpm,positions,← hasNode_eq_occurs]
        exact hrs
      · rw [verifierNodes,if_neg (by simp [hp])]
        exact hlook r hr
    · refine absurd (hc.mono fun x hx => ?_) hno
      rw [consistencyInputs,if_neg (by simp [hp]),hpm]
      simp only [forestInputs,List.mem_append] at hx ⊢
      tauto

/-- Acceptance ties: unless something collided, both walks complete and the logs agree
on every tied range. -/
theorem accepted_tied (hA : 0 < A.length) (hAB : A.length < B.length)
    (hpm : p.m=A.length) (hpn : p.n=B.length)
    (hacc : verifyConsistency sha256 ((rangeTree (leafAt A) 0 A.length).root (scheme sha256))
      ((rangeTree (leafAt B) 0 B.length).root (scheme sha256)) p=true)
    (hno : ¬ Collides sha256 (forestInputs sha256 A++forestInputs sha256 B ++
      consistencyInputs sha256 ((rangeTree (leafAt A) 0 A.length).root (scheme sha256)) p)) :
    Covers p.m p.n (positions p) ∧ ∀ r∈tiedRanges p.m p.n (positions p), Agree sha256 A B r := by
  rw [verifyConsistency_iff sha256 _ _ _ (by omega) (by omega)] at hacc
  obtain ⟨hold,hnew⟩ := hacc
  have hB : 0 < B.length := by omega
  -- the walk for the new root stops at subtree hashes of B
  rw [hpn] at hnew
  obtain ⟨rsN,hrsN,hlookN | hc⟩ := reconstruct_sound sha256 (leafAt B) _ hB hnew
  swap
  · refine absurd (hc.mono fun x hx => ?_) hno
    simp only [forestInputs,consistencyInputs,hpn,List.mem_append] at hx ⊢
    tauto
  have hnewStops : newStops p.m p.n (positions p)=some rsN := by
    rw [← stops_verifierNodes,hpn,hrsN]
  obtain ⟨rsO,hrsO,hlookO⟩ := oldStops_lookup hA hpm hold hno
  refine ⟨⟨by simp [hrsO],by simp [hnewStops]⟩,fun r hr => ?_⟩
  obtain ⟨hrO,ht⟩ := List.mem_filter.mp hr
  simp only [hrsO,Option.getD_some] at hrO
  have hrN : r∈rsN := by
    simp only [tied,hnewStops,Option.getD_some,Bool.and_eq_true,decide_eq_true_eq] at ht
    exact ht.1
  have hpos := ((oldStops_cover (by omega) hrsO).2 r hrO).1
  have hroots := (hlookO r hrO ht).symm.trans (hlookN r hrN)
  rcases agree_of_roots sha256 hpos (Option.some.inj hroots) with ha | hc
  · exact ha
  · refine absurd (hc.mono (List.append_subset.mpr ⟨?_,?_⟩)) hno
    · intro x hx
      rw [hpm] at hrsO
      simp only [List.mem_append]
      exact .inl (.inl (oldStops_messages sha256 hA hrsO hrO hx))
    · intro x hx
      have := stops_messages (scheme sha256) (leafAt B) hB hrsN hrN hx
      simp only [List.mem_append]
      exact .inl (.inr this)

/- The proof an adversary sends for chosen positions: B's hash wherever the walk for
   the new root stops, A's hash everywhere else. -/
def forgedNodes (sha256 : Bytes → Digest) (A B : List Bytes) (pos : List (Nat × Nat)) :
    List ConsistencyNode :=
  let news := (newStops A.length B.length pos).getD []
  pos.map fun q => ⟨q.1,q.2,
    if q∈news then (rangeTree (leafAt B) q.1 q.2).root (scheme sha256)
    else (rangeTree (leafAt A) q.1 q.2).root (scheme sha256)⟩

def forgedProof (sha256 : Bytes → Digest) (A B : List Bytes) (pos : List (Nat × Nat)) :
    ConsistencyProof := ⟨A.length,B.length,forgedNodes sha256 A B pos⟩

variable {pos rsO rsN : List (Nat × Nat)}

theorem positions_forgedProof (sha256 : Bytes → Digest) (A B : List Bytes)
    (pos : List (Nat × Nat)) : positions (forgedProof sha256 A B pos)=pos := by
  simp [positions,forgedProof,forgedNodes,Function.comp_def]

theorem hasNode_forged (sha256 : Bytes → Digest) (A B : List Bytes) (pos : List (Nat × Nat)) :
    hasNode (forgedNodes sha256 A B pos) = occurs pos := by
  rw [hasNode_eq_occurs]
  exact congrArg occurs (positions_forgedProof sha256 A B pos)

variable {r : Nat × Nat}

theorem lookup_forged (hN : newStops A.length B.length pos=some rsN)
    (hr : occurs pos r.1 r.2=true) : lookup (forgedNodes sha256 A B pos) r.1 r.2=some
      (if r∈rsN then (rangeTree (leafAt B) r.1 r.2).root (scheme sha256)
       else (rangeTree (leafAt A) r.1 r.2).root (scheme sha256)) := by
  simp only [forgedNodes,hN,Option.getD_some]
  exact lookup_map pos _ r.1 r.2 (by simpa [occurs] using hr)

theorem mem_tiedRanges (hO : oldStops A.length pos=some rsO)
    (hN : newStops A.length B.length pos=some rsN) (hrO : r∈rsO) (hrN : r∈rsN)
    (hs : isPowerOfTwo A.length=true → occurs pos 0 A.length=false) :
    r∈tiedRanges A.length B.length pos := by
  simp only [tiedRanges,tied,hO,hN,Option.getD_some,List.mem_filter,hrO,hrN,true_and,
    decide_true,Bool.true_and]
  cases hp : isPowerOfTwo A.length <;> simp_all

/-- On an old stop that is tied, either log's hash will do. -/
theorem root_of_tied (hA : 0 < A.length) (hO : oldStops A.length pos=some rsO)
    (hag : ∀ r∈tiedRanges A.length B.length pos, Agree sha256 A B r) (hrO : r∈rsO)
    (ht : r∈tiedRanges A.length B.length pos) :
    (rangeTree (leafAt A) r.1 r.2).root (scheme sha256) =
      (rangeTree (leafAt B) r.1 r.2).root (scheme sha256) :=
  roots_of_agree sha256 ((oldStops_cover hA hO).2 r hrO).1 (hag r ht)

theorem forged_at_newStop (hA : 0 < A.length) (hAB : A.length < B.length)
    (hO : oldStops A.length pos=some rsO) (hN : newStops A.length B.length pos=some rsN)
    (hag : ∀ r∈tiedRanges A.length B.length pos, Agree sha256 A B r) (hr : r∈rsN) :
    lookup (verifierNodes ((rangeTree (leafAt A) 0 A.length).root (scheme sha256))
      (forgedProof sha256 A B pos)) r.1 r.2 =
        some ((rangeTree (leafAt B) r.1 r.2).root (scheme sha256)) := by
  have hcov := covered_of_mem_stops (by omega) hN hr
  by_cases hp : isPowerOfTwo (forgedProof sha256 A B pos).m=true
  swap
  · rw [verifierNodes,if_neg hp]
    rw [if_neg (show ¬ isPowerOfTwo A.length=true from hp)] at hcov
    exact (lookup_forged hN hcov).trans (by rw [if_pos hr])
  · rw [verifierNodes,if_pos hp]
    change isPowerOfTwo A.length=true at hp
    change lookup (forgedNodes sha256 A B pos++[⟨0,A.length,_⟩]) r.1 r.2=_
    rw [if_pos hp] at hcov
    rw [lookup_append,hasNode_forged]
    cases hocc : occurs pos r.1 r.2 with
    | true => rw [if_pos rfl,lookup_forged hN hocc,if_pos hr]
    | false =>
      -- only the appended old root is left to stop at
      have hr0 : r=(0, A.length) := by
        simp only [occurs,decide_eq_false_iff_not] at hocc
        simpa [occurs,hocc] using hcov
      subst hr0
      have hrO : (0, A.length)∈rsO := by
        rw [oldStops,if_pos hp] at hO
        simp [← Option.some.inj hO]
      simp only [Bool.false_eq_true,if_false,and_self,if_true,Option.some.injEq]
      exact root_of_tied hA hO hag hrO (mem_tiedRanges hO hN hrO hr fun _ => hocc)

theorem forged_at_oldStop (hA : 0 < A.length) (hp : isPowerOfTwo A.length=false)
    (hO : oldStops A.length pos=some rsO) (hN : newStops A.length B.length pos=some rsN)
    (hag : ∀ r∈tiedRanges A.length B.length pos, Agree sha256 A B r) (hr : r∈rsO) : lookup (forgedNodes sha256 A B pos) r.1 r.2 =
      some ((rangeTree (leafAt A) r.1 r.2).root (scheme sha256)) := by
  have hstops := hO
  rw [oldStops,if_neg (by simp [hp])] at hstops
  rw [lookup_forged hN (covered_of_mem_stops hA hstops hr)]
  split_ifs with hrN
  · rw [root_of_tied hA hO hag hr (mem_tiedRanges hO hN hr hrN (by simp [hp]))]
  · rfl

/-- Where the logs agree on the tied ranges, the forged proof is accepted and makes the
verifier hash nothing that the two logs do not. -/
theorem forgedProof_accepted (hA : 0 < A.length) (hAB : A.length < B.length)
    (hcov : Covers A.length B.length pos)
    (hag : ∀ r∈tiedRanges A.length B.length pos, Agree sha256 A B r) :
    verifyConsistency sha256 ((rangeTree (leafAt A) 0 A.length).root (scheme sha256))
      ((rangeTree (leafAt B) 0 B.length).root (scheme sha256))
      (forgedProof sha256 A B pos)=true ∧
    consistencyInputs sha256 ((rangeTree (leafAt A) 0 A.length).root (scheme sha256))
      (forgedProof sha256 A B pos) ⊆ forestInputs sha256 A++forestInputs sha256 B := by
  obtain ⟨rsO,hO⟩ := Option.isSome_iff_exists.mp hcov.1
  obtain ⟨rsN,hN⟩ := Option.isSome_iff_exists.mp hcov.2
  have hstopsN := stops_verifierNodes ((rangeTree (leafAt A) 0 A.length).root (scheme sha256))
    (forgedProof sha256 A B pos)
  rw [positions_forgedProof] at hstopsN
  have hB : 0 < B.length := by omega
  have hnew := reconstruct_of_stops sha256 (leafAt B) _ hB (hstopsN.trans hN)
    fun r hr => forged_at_newStop hA hAB hO hN hag hr
  rw [verifyConsistency_iff sha256 _ _ (forgedProof sha256 A B pos) hA hAB,consistencyInputs]
  have hsub := List.Subset.trans hnew.2 (List.subset_append_right (forestInputs sha256 A) _)
  cases hp : isPowerOfTwo A.length with
  | true =>
    refine ⟨⟨fun h => absurd (hp.symm.trans h) (by simp),hnew.1⟩,?_⟩
    rw [if_pos (show isPowerOfTwo (forgedProof sha256 A B pos).m=true from hp),List.nil_append]
    exact hsub
  | false =>
    have hstopsO : stops (hasNode (forgedNodes sha256 A B pos)) 0 A.length=some rsO := by
      rw [oldStops,if_neg (by simp [hp])] at hO
      rw [hasNode_forged,hO]
    have hold := reconstruct_of_stops sha256 (leafAt A) _ hA hstopsO
      fun r hr => forged_at_oldStop hA hp hO hN hag hr
    refine ⟨⟨fun _ => hold.1,hnew.1⟩,?_⟩
    rw [if_neg (by simp [forgedProof,hp])]
    exact List.append_subset.mpr
      ⟨List.Subset.trans hold.2 (List.subset_append_left _ _),hsub⟩
end

/- Soundness of the verifier on given node positions, for any hashes the adversary
   puts there, holds exactly when agreement on the tied ranges already settles the
   untied ones (or the two logs' own hashing collides). -/
theorem verifyConsistency_sound_iff (A B : List Bytes) (hA : 0 < A.length)
    (hAB : A.length < B.length) (oldRoot newRoot : Digest)
    (hold : forestRoot sha256 (MerkleTree.fromLeaves sha256 A)=some oldRoot)
    (hnew : forestRoot sha256 (MerkleTree.fromLeaves sha256 B)=some newRoot)
    (pos : List (Nat × Nat)) :
    (∀ p : ConsistencyProof, p.m=A.length → p.n=B.length → positions p=pos →
      verifyConsistency sha256 oldRoot newRoot p=true →
      A.map (leafHash sha256) <+: B.map (leafHash sha256) ∨
        Collides sha256 (forestInputs sha256 A++forestInputs sha256 B ++
          consistencyInputs sha256 oldRoot p)) ↔
    (Collides sha256 (forestInputs sha256 A++forestInputs sha256 B) ∨
      (Covers A.length B.length pos →
        (∀ r∈tiedRanges A.length B.length pos, Agree sha256 A B r) →
        ∀ r∈untiedRanges A.length B.length pos, Agree sha256 A B r)) := by
  have hneA : A≠[] := List.ne_nil_of_length_pos hA
  have hneB : B≠[] := List.ne_nil_of_length_pos (by omega)
  rw [forestRoot_fromLeaves sha256 A hneA,Option.some.injEq] at hold
  rw [forestRoot_fromLeaves sha256 B hneB,Option.some.injEq] at hnew
  subst hold hnew
  constructor
  · intro hall
    by_cases hc : Collides sha256 (forestInputs sha256 A++forestInputs sha256 B)
    · exact .inl hc
    refine .inr fun hcov hag r hr => ?_
    obtain ⟨hacc,hsub⟩ := forgedProof_accepted hA hAB hcov hag
    rcases hall _ rfl rfl (positions_forgedProof sha256 A B pos) hacc with hpre | hc'
    · rw [leafHashes_prefix_iff sha256 hAB.le] at hpre
      obtain ⟨rsO,hO⟩ := Option.isSome_iff_exists.mp hcov.1
      have hrO : r∈rsO := by simpa [hO] using (List.mem_filter.mp hr).1
      have hin := (oldStops_cover hA hO).2 r hrO
      exact fun i hlo hhi => hpre i (by simp) (by simp; omega)
    · exact absurd (hc'.mono (List.append_subset.mpr ⟨List.Subset.refl _,hsub⟩)) hc
  · rintro hcond p hpm hpn rfl hacc
    by_cases hno : Collides sha256 (forestInputs sha256 A++forestInputs sha256 B ++
        consistencyInputs sha256 ((rangeTree (leafAt A) 0 A.length).root (scheme sha256)) p)
    · exact .inr hno
    obtain ⟨hcov,htied⟩ := accepted_tied hA hAB hpm hpn hacc hno
    rcases hcond with hc | huntied
    · exact absurd (hc.mono (List.subset_append_left _ _)) hno
    · rw [hpm,hpn] at hcov htied
      have hrest := huntied hcov htied
      obtain ⟨rsO,hO⟩ := Option.isSome_iff_exists.mp hcov.1
      refine .inl ((leafHashes_prefix_iff sha256 hAB.le).mpr fun i _ hi => ?_)
      obtain ⟨r,hr,hlo,hhi⟩ := (oldStops_cover hA hO).1 i (by simpa using hi)
      cases ht : tied A.length B.length (positions p) r with
      | true => exact htied r (List.mem_filter.mpr ⟨by simpa [hO] using hr,ht⟩) i hlo hhi
      | false =>
        exact hrest r (List.mem_filter.mpr ⟨by simpa [hO] using hr,by simp [ht]⟩) i hlo hhi

theorem rangeTree_pair (a b : Bytes) :
    rangeTree (leafAt [a,b]) 0 2 = .node (.leaf a) (.leaf b) := by
  rw [rangeTree_split _ _ (by omega),show split 2=1 by decide,rangeTree_one,rangeTree_one]
  rfl

theorem forestInputs_pair (a b : Bytes) : forestInputs sha256 [a,b]=treeInputs sha256 [a,b] := by
  rw [forestInputs,treeInputs_pair,show [a,b].length=2 from rfl,rangeTree_pair]
  rfl

/- On the positions of the honest proof from one leaf to two nothing is left untied. -/
theorem verifyConsistency_sound_iff_honest :
    untiedRanges 1 2 [(1, 1)]=[] ∧
    ∀ p : ConsistencyProof, p.m=1 → p.n=2 → positions p=[(1, 1)] →
      verifyConsistency Sha256.sha256
        ((rangeTree (leafAt [[1]]) 0 1).root (scheme Sha256.sha256))
        ((rangeTree (leafAt [[1],[2]]) 0 2).root (scheme Sha256.sha256)) p=true →
      [[(1 : UInt8)]].map (leafHash Sha256.sha256) <+: [[1],[2]].map (leafHash Sha256.sha256) ∨
        Collides Sha256.sha256 (forestInputs Sha256.sha256 [[1]] ++
          forestInputs Sha256.sha256 [[1],[2]]++consistencyInputs Sha256.sha256
            ((rangeTree (leafAt [[1]]) 0 1).root (scheme Sha256.sha256)) p) := by
  have hnone : untiedRanges 1 2 [(1, 1)]=[] := by decide +kernel
  refine ⟨hnone,(verifyConsistency_sound_iff Sha256.sha256 [[1]] [[1],[2]] (by decide)
    (by decide) _ _ (forestRoot_fromLeaves _ _ (by decide)) (forestRoot_fromLeaves _ _ (by decide))
    [(1, 1)]).mpr (.inr fun _ _ r hr => ?_)⟩
  exact absurd (hnone ▸ hr) (by simp)

/- One node over the whole new tree: the walk for the new root never reaches the old
   one, so a log of one leaf passes for an earlier version of a log it does not start. -/
theorem verifyConsistency_whole_tree_forged :
    ¬ ∀ (A B : List Bytes) (oldRoot newRoot : Digest), 0 < A.length → A.length < B.length →
      forestRoot Sha256.sha256 (MerkleTree.fromLeaves Sha256.sha256 A)=some oldRoot →
      forestRoot Sha256.sha256 (MerkleTree.fromLeaves Sha256.sha256 B)=some newRoot →
      ∀ p : ConsistencyProof, p.m=A.length → p.n=B.length →
        verifyConsistency Sha256.sha256 oldRoot newRoot p=true →
        A.map (leafHash Sha256.sha256) <+: B.map (leafHash Sha256.sha256) ∨
          Collides Sha256.sha256 (forestInputs Sha256.sha256 A++forestInputs Sha256.sha256 B ++
            consistencyInputs Sha256.sha256 oldRoot p) := by
  intro hall
  have hpow : isPowerOfTwo 1=true := by decide
  have hbad := hall [[2]] [[1],[2]] _ _ (by decide) (by decide)
    (forestRoot_fromLeaves _ _ (by decide)) (forestRoot_fromLeaves _ _ (by decide))
    ⟨1,2,[⟨0,2,(rangeTree (leafAt [[1],[2]]) 0 2).root (scheme Sha256.sha256)⟩]⟩ rfl rfl
    (by simp [verifyConsistency,hpow,reconstruct,lookup])
  rcases hbad with hpre | hc
  · have heq : leafHash Sha256.sha256 [2]=leafHash Sha256.sha256 [1] := by
      simpa using hpre
    refine one_two_distinct ⟨leafMessage [2],?_,leafMessage [1],?_,by decide,heq⟩ <;>
      simp [treeInputs_pair]
  · refine one_two_distinct (hc.mono fun x hx => ?_)
    have hnone : consistencyInputs Sha256.sha256
        ((rangeTree (leafAt [[2]]) 0 1).root (scheme Sha256.sha256))
        ⟨1,2,[⟨0,2,(rangeTree (leafAt [[1],[2]]) 0 2).root (scheme Sha256.sha256)⟩]⟩=[] := by
      simp only [consistencyInputs,rebuiltInputs,verifierNodes,hpow,if_true,List.nil_append]
      rw [walk_found (by simp [lookup]; rfl)]
      rfl
    have hone : forestInputs Sha256.sha256 [[2]]=[leafMessage [2]] := by
      rw [forestInputs,show [[(2 : UInt8)]].length=1 from rfl,rangeTree_one]
      rfl
    rw [show [[(2 : UInt8)]].length=1 from rfl,hnone,List.append_nil,List.mem_append,hone,
      forestInputs_pair] at hx
    rcases hx with hx | hx
    · rw [List.mem_singleton.mp hx,treeInputs_pair]
      simp
    · exact hx

end AetherX.ConsistencyTies
