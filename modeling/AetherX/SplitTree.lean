import AetherX.HashTree
import Mathlib.Data.Nat.Log

/-! Trees over a range of positions, split at the largest power of two below their
size, and walks that stop at the ranges somebody supplies a digest for. -/
namespace AetherX.SplitTree
open HashTree List
variable {D M H : Type*}

def split (n : Nat) : Nat := 2^Nat.log 2 (n-1)

theorem split_pos (n : Nat) : 0 < split n := Nat.two_pow_pos _

variable {n : Nat}

theorem split_lt (h : 2 ≤ n) : split n < n := by
  have := Nat.pow_log_le_self 2 (show n-1≠0 by omega)
  unfold split
  omega

theorem le_two_mul_split (h : 2 ≤ n) : n≤2*split n := by
  have := Nat.lt_pow_succ_log_self (b := 2) (by omega) (n-1)
  rw [Nat.pow_succ] at this
  unfold split
  omega

theorem split_unique {e : Nat} (hlt : 2^e < n) (hle : n≤2*2^e) : split n=2^e := by
  unfold split
  congr 1
  apply Nat.log_eq_of_pow_le_of_lt_pow
  · omega
  · rw [Nat.pow_succ]
    omega

/-- Between a split point and the size it splits, the split point stays put. -/
theorem split_stable {m : Nat} (h : split n < m) (hle : m ≤ n) : split m=split n := by
  by_cases hn : 2 ≤ n
  · exact split_unique h (hle.trans (le_two_mul_split hn))
  · have := split_pos n
    omega

def rangeTree (leaf : Nat → D) (first size : Nat) : LeafTree D :=
  if 2 ≤ size then
    .node (rangeTree leaf first (split size))
      (rangeTree leaf (first+split size) (size-split size))
  else .leaf (leaf first)
termination_by size
decreasing_by
  · exact split_lt ‹_›
  · have := split_pos size
    omega

variable {size : Nat}

theorem rangeTree_split (leaf : Nat → D) (first : Nat) (h : 2 ≤ size) :
    rangeTree leaf first size = .node (rangeTree leaf first (split size))
      (rangeTree leaf (first+split size) (size-split size)) := by
  rw [rangeTree,if_pos h]

theorem rangeTree_one (leaf : Nat → D) (first : Nat) : rangeTree leaf first 1 = .leaf (leaf first) := by
  rw [rangeTree,if_neg (by omega)]

theorem range_induction {motive : Nat → Nat → Prop}
    (single : ∀ first, motive first 1)
    (both : ∀ first size, 2 ≤ size → motive first (split size) →
      motive (first+split size) (size-split size) → motive first size)
    (first size : Nat) (h : 0 < size) : motive first size := by
  induction size using Nat.strong_induction_on generalizing first with
  | _ size ih =>
    by_cases hs : 2 ≤ size
    · have hlt := split_lt hs
      have hpos := split_pos size
      exact both first size hs (ih _ hlt first hpos) (ih _ (by omega) _ (by omega))
    · obtain rfl : size=1 := by omega
      exact single first

/-- Two range trees are equal exactly when their leaves agree on the range. -/
theorem rangeTree_inj {leaf leaf' : Nat → D} (first size : Nat) (h : 0 < size) :
    rangeTree leaf first size=rangeTree leaf' first size ↔
      ∀ i, first ≤ i → i < first+size → leaf i=leaf' i := by
  refine range_induction (motive := fun first size =>
    rangeTree leaf first size=rangeTree leaf' first size ↔
      ∀ i, first ≤ i → i < first+size → leaf i=leaf' i) ?_ ?_ first size h
  · intro first
    simp only [rangeTree_one,LeafTree.leaf.injEq]
    constructor
    · intro he i hlo hhi
      obtain rfl : i=first := by omega
      exact he
    · intro he
      exact he first (by omega) (by omega)
  · intro first size hs ihl ihr
    have hlt := split_lt hs
    rw [rangeTree_split leaf first hs,rangeTree_split leaf' first hs,LeafTree.node.injEq,ihl,ihr]
    constructor
    · rintro ⟨hl,hr⟩ i hlo hhi
      by_cases hi : i < first+split size
      · exact hl i hlo hi
      · exact hr i (by omega) (by omega)
    · intro he
      exact ⟨fun i hlo hhi => he i hlo (by omega),fun i hlo hhi => he i (by omega) (by omega)⟩

/-- The root over a range sees the leaves only through their hashes. -/
theorem rangeTree_root_congr (S : Scheme D M H) {leaf leaf' : Nat → D} (first size : Nat)
    (hpos : 0 < size) (h : ∀ i, first ≤ i → i < first+size →
      S.hash (S.leafMsg (leaf i))=S.hash (S.leafMsg (leaf' i))) :
    (rangeTree leaf first size).root S=(rangeTree leaf' first size).root S := by
  revert h
  refine range_induction (motive := fun first size => (∀ i, first ≤ i → i < first+size →
      S.hash (S.leafMsg (leaf i))=S.hash (S.leafMsg (leaf' i))) →
    (rangeTree leaf first size).root S=(rangeTree leaf' first size).root S) ?_ ?_ first size hpos
  · intro first h
    rw [rangeTree_one,rangeTree_one]
    exact h first (by omega) (by omega)
  · intro first size hs ihl ihr h
    have hlt := split_lt hs
    rw [rangeTree_split leaf first hs,rangeTree_split leaf' first hs,LeafTree.root,LeafTree.root,
      ihl fun i hlo hhi => h i hlo (by omega),ihr fun i hlo hhi => h i (by omega) (by omega)]

theorem leaves_rangeTree (leaf : Nat → D) (first size : Nat) (hpos : 0 < size) :
    (rangeTree leaf first size).leaves=(range' first size).map leaf := by
  refine range_induction (motive := fun first size =>
    (rangeTree leaf first size).leaves=(range' first size).map leaf) ?_ ?_ first size hpos
  · intro first
    rw [rangeTree_one]
    rfl
  · intro first size hs ihl ihr
    have hsum : split size+(size-split size)=size := Nat.add_sub_cancel' (split_lt hs).le
    rw [rangeTree_split leaf first hs,LeafTree.leaves,ihl,ihr,← map_append,range'_append_1,
      hsum]

/- The ranges where a walk down from one range stops, left to right; none when it
   runs into a single position that is not covered. -/
def stops (covered : Nat → Nat → Bool) (first size : Nat) : Option (List (Nat × Nat)) :=
  if covered first size then some [(first, size)]
  else if 2 ≤ size then do
    let l ← stops covered first (split size)
    let r ← stops covered (first+split size) (size-split size)
    some (l++r)
  else none
termination_by size
decreasing_by
  · exact split_lt ‹_›
  · have := split_pos size
    omega

/- The same walk collecting the supplied digests into an opening. -/
def walk (find : Nat → Nat → Option H) (first size : Nat) : Option (Opening D H) :=
  match find first size with
  | some h => some (.known h)
  | none =>
    if 2 ≤ size then do
      let l ← walk find first (split size)
      let r ← walk find (first+split size) (size-split size)
      some (.fork l r)
    else none
termination_by size
decreasing_by
  · exact split_lt ‹_›
  · have := split_pos size
    omega

variable {first : Nat} {covered : Nat → Nat → Bool} {rs : List (Nat × Nat)}

theorem walk_found {find : Nat → Nat → Option H} {h : H} (hf : find first size=some h) : walk (D := D) find first size=some (.known h) := by
  rw [walk,hf]

theorem stops_covered (h : covered first size=true) : stops covered first size=some [(first, size)] := by
  rw [stops,if_pos h]

theorem stops_single (h : covered first 1=false) : stops covered first 1=none := by
  rw [stops,h]
  simp

theorem stops_split (h : covered first size=false) (hs : 2 ≤ size) :
    stops covered first size=(do
      let l ← stops covered first (split size)
      let r ← stops covered (first+split size) (size-split size)
      some (l++r)) := by
  rw [stops,h,if_pos hs]
  rfl

/-- Everything a completed walk can have done at one range. -/
theorem stops_cases (h : stops covered first size=some rs) (hpos : 0 < size) :
    (covered first size=true ∧ rs=[(first, size)]) ∨
    (covered first size=false ∧ 2 ≤ size ∧ ∃ l r,
      stops covered first (split size)=some l ∧
      stops covered (first+split size) (size-split size)=some r ∧ rs=l++r) := by
  cases hc : covered first size with
  | true =>
    rw [stops_covered hc] at h
    exact .inl ⟨rfl,(Option.some.inj h).symm⟩
  | false =>
    by_cases hs : 2 ≤ size
    · rw [stops_split hc hs] at h
      simp only [Option.bind_eq_bind,Option.bind_eq_some_iff] at h
      obtain ⟨l,hl,r,hr,he⟩ := h
      exact .inr ⟨rfl,hs,l,r,hl,hr,(Option.some.inj he).symm⟩
    · obtain rfl : size=1 := by omega
      rw [stops_single hc] at h
      exact absurd h (by simp)

theorem stop_covers (hpos : 0 < size) :
    (∀ i, first ≤ i → i < first+size → ∃ r∈[(first, size)], r.1 ≤ i ∧ i < r.1+r.2) ∧
    (∀ r∈[(first, size)], 0 < r.2 ∧ first ≤ r.1 ∧ r.1+r.2 ≤ first+size) := by
  constructor
  · intro i hlo hhi
    exact ⟨_,mem_singleton_self _,hlo,hhi⟩
  · intro r hr
    obtain rfl := mem_singleton.mp hr
    exact ⟨hpos,le_refl _,le_refl _⟩

/-- A completed walk stops somewhere above every position, inside its range. -/
theorem stops_cover (hpos : 0 < size) (h : stops covered first size=some rs) :
    (∀ i, first ≤ i → i < first+size → ∃ r∈rs, r.1 ≤ i ∧ i < r.1+r.2) ∧
    (∀ r∈rs, 0 < r.2 ∧ first ≤ r.1 ∧ r.1+r.2 ≤ first+size) := by
  revert rs
  refine range_induction (motive := fun first size => ∀ {rs}, stops covered first size=some rs →
    (∀ i, first ≤ i → i < first+size → ∃ r∈rs, r.1 ≤ i ∧ i < r.1+r.2) ∧
    (∀ r∈rs, 0 < r.2 ∧ first ≤ r.1 ∧ r.1+r.2 ≤ first+size)) ?_ ?_ first size hpos
  · intro first rs h
    rcases stops_cases h (by omega) with ⟨_,rfl⟩ | ⟨_,hs,_⟩
    · exact stop_covers (by omega)
    · omega
  · intro first size hs ihl ihr rs h
    have hlt := split_lt hs
    rcases stops_cases h (by omega) with ⟨_,rfl⟩ | ⟨_,_,l,r,hl,hr,rfl⟩
    · exact stop_covers (by omega)
    · obtain ⟨hcl,hbl⟩ := ihl hl
      obtain ⟨hcr,hbr⟩ := ihr hr
      constructor
      · intro i hlo hhi
        by_cases hi : i < first+split size
        · obtain ⟨q,hq,hin⟩ := hcl i hlo hi
          exact ⟨q,mem_append_left _ hq,hin⟩
        · obtain ⟨q,hq,hin⟩ := hcr i (by omega) (by omega)
          exact ⟨q,mem_append_right _ hq,hin⟩
      · intro q hq
        rcases mem_append.mp hq with hq | hq
        · have := hbl q hq
          omega
        · have := hbr q hq
          omega

theorem covered_of_mem_stops (hpos : 0 < size) (h : stops covered first size=some rs)
    {r : Nat × Nat} (hr : r∈rs) : covered r.1 r.2=true := by
  revert rs
  refine range_induction (motive := fun first size => ∀ {rs}, stops covered first size=some rs →
    r∈rs → covered r.1 r.2=true) ?_ ?_ first size hpos
  · intro first rs h hr
    rcases stops_cases h (by omega) with ⟨hc,rfl⟩ | ⟨_,hs,_⟩
    · rw [mem_singleton.mp hr]
      exact hc
    · omega
  · intro first size hs ihl ihr rs h hr
    rcases stops_cases h (by omega) with ⟨hc,rfl⟩ | ⟨_,_,u,v,hu,hv,rfl⟩
    · rw [mem_singleton.mp hr]
      exact hc
    · exact (mem_append.mp hr).elim (ihl hu) (ihr hv)

def Coverable (covered : Nat → Nat → Bool) (first size : Nat) : Prop :=
  ∃ rs, stops covered first size=some rs

theorem Coverable.of_covered (h : covered first size=true) : Coverable covered first size :=
  ⟨_,stops_covered h⟩

theorem Coverable.of_split (hs : 2 ≤ size) (hl : Coverable covered first (split size))
    (hr : Coverable covered (first+split size) (size-split size)) :
    Coverable covered first size := by
  cases hc : covered first size with
  | true => exact .of_covered hc
  | false =>
    obtain ⟨l,hl⟩ := hl
    obtain ⟨r,hr⟩ := hr
    exact ⟨l++r,by simp [stops_split hc hs,hl,hr]⟩

/-- The trees under the stops are parts of the tree over the whole range. -/
theorem stops_messages (S : Scheme D M H) (leaf : Nat → D) (hpos : 0 < size)
    (h : stops covered first size=some rs) {r : Nat × Nat} (hr : r∈rs) :
    (rangeTree leaf r.1 r.2).messages S ⊆ (rangeTree leaf first size).messages S := by
  revert rs
  refine range_induction (motive := fun first size => ∀ {rs}, stops covered first size=some rs →
    r∈rs → (rangeTree leaf r.1 r.2).messages S ⊆ (rangeTree leaf first size).messages S)
    ?_ ?_ first size hpos
  · intro first rs h hr
    rcases stops_cases h (by omega) with ⟨_,rfl⟩ | ⟨_,hs,_⟩
    · rw [mem_singleton.mp hr]
      exact List.Subset.refl _
    · omega
  · intro first size hs ihl ihr rs h hr
    rcases stops_cases h (by omega) with ⟨_,rfl⟩ | ⟨_,_,u,v,hu,hv,rfl⟩
    · rw [mem_singleton.mp hr]
      exact List.Subset.refl _
    · rw [rangeTree_split leaf first hs,LeafTree.messages]
      intro x hx
      rcases mem_append.mp hr with hr | hr
      · exact mem_cons_of_mem _ (mem_append_left _ (ihl hu hr hx))
      · exact mem_cons_of_mem _ (mem_append_right _ (ihr hv hr hx))

/-- The walk completes exactly when it has stops, and its opening is part of a tree
exactly when every supplied digest is the root of the tree over its stop. -/
theorem walk_spec (S : Scheme D M H) (find : Nat → Nat → Option H) (hpos : 0 < size) :
    (stops (fun f s => (find f s).isSome) first size=none ∧
      walk (D := D) find first size=none) ∨
    ∃ rs o, stops (fun f s => (find f s).isSome) first size=some rs ∧
      walk find first size=some o ∧
      ∀ leaf : Nat → D, o.Matches S (rangeTree leaf first size) ↔
        ∀ r∈rs, find r.1 r.2=some ((rangeTree leaf r.1 r.2).root S) := by
  have stopped : ∀ {first size : Nat} {h : H}, find first size=some h →
      ∃ rs o, stops (fun f s => (find f s).isSome) first size=some rs ∧
        walk find first size=some o ∧
        ∀ leaf : Nat → D, o.Matches S (rangeTree leaf first size) ↔
          ∀ r∈rs, find r.1 r.2=some ((rangeTree leaf r.1 r.2).root S) := by
    intro first size h hf
    refine ⟨_,_,stops_covered (by simp [hf]),walk_found hf,?_⟩
    intro leaf
    simp only [mem_singleton,forall_eq,hf,Option.some.injEq]
    exact eq_comm
  refine range_induction (motive := fun first size =>
    (stops (fun f s => (find f s).isSome) first size=none ∧
      walk (D := D) find first size=none) ∨
    ∃ rs o, stops (fun f s => (find f s).isSome) first size=some rs ∧
      walk find first size=some o ∧
      ∀ leaf : Nat → D, o.Matches S (rangeTree leaf first size) ↔
        ∀ r∈rs, find r.1 r.2=some ((rangeTree leaf r.1 r.2).root S)) ?_ ?_ first size hpos
  · intro first
    cases hf : find first 1 with
    | some h => exact .inr (stopped hf)
    | none => exact .inl ⟨stops_single (by simp [hf]),by simp [walk,hf]⟩
  · intro first size hs ihl ihr
    cases hf : find first size with
    | some h => exact .inr (stopped hf)
    | none =>
      rw [stops_split (by simp [hf]) hs,walk,hf]
      simp only [if_pos hs]
      rcases ihl with ⟨hl,hl'⟩ | ⟨ls,lo,hl,hl',hlm⟩
      · exact .inl ⟨by simp [hl],by simp [hl']⟩
      · rcases ihr with ⟨hr,hr'⟩ | ⟨rs,ro,hr,hr',hrm⟩
        · exact .inl ⟨by simp [hr],by simp [hr']⟩
        · refine .inr ⟨ls++rs,.fork lo ro,by simp [hl,hr],by simp [hl',hr'],?_⟩
          intro leaf
          rw [rangeTree_split leaf first hs,Opening.Matches,hlm,hrm]
          simp only [mem_append,or_imp,forall_and]

end AetherX.SplitTree
