import Mathlib.Data.List.Sort

/-! Sorting by a key, greatest first, with equal keys left in their order. -/
namespace AetherX.StableSort
variable {α κ : Type*}

/-- A selection that is in order already keeps its order. -/
theorem filter_insertionSort {r : α → α → Prop} [DecidableRel r] {p : α → Bool} {l : List α}
    (h : (l.filter p).Pairwise r) : (l.insertionSort r).filter p=l.filter p := by
  have hsub : (l.filter p).Sublist ((l.insertionSort r).filter p) := by
    have hkept := (List.sublist_insertionSort h List.filter_sublist).filter p
    simpa [List.filter_filter] using hkept
  exact (hsub.eq_of_length ((List.perm_insertionSort r l).filter p).length_eq.symm).symm

section
variable [LinearOrder κ] (key : α → κ)

abbrev Before (a b : α) : Prop := key b ≤ key a

instance : Std.Total (Before key) := ⟨fun a b => le_total (key b) (key a)⟩

instance : IsTrans α (Before key) := ⟨fun _ _ _ hab hbc => le_trans hbc hab⟩

def sortDesc (l : List α) : List α := l.insertionSort (Before key)

theorem sortDesc_pairwise (l : List α) : (sortDesc key l).Pairwise (Before key) :=
  List.pairwise_insertionSort (Before key) l

theorem sortDesc_perm (l : List α) : (sortDesc key l).Perm l := List.perm_insertionSort _ l

/-- Among those of a list that are wanted, the first one with the greatest key. -/
def IsBest (wanted : α → Bool) (l : List α) (c : α) : Prop :=
  ∃ before after, l=before++c::after ∧ wanted c=true ∧
    (∀ d∈before, wanted d=true → key d < key c) ∧
    ∀ d∈after, wanted d=true → key d ≤ key c

variable {key} {wanted : α → Bool} {a c : α} {l : List α}

theorem IsBest.cons_of_lt (h : IsBest key wanted l c) (ha : wanted a=true → key a < key c) :
    IsBest key wanted (a::l) c := by
  obtain ⟨before,after,rfl,hc,hbefore,hafter⟩ := h
  refine ⟨a::before,after,rfl,hc,fun d hd => ?_,hafter⟩
  rcases List.mem_cons.mp hd with rfl | hd
  · exact ha
  · exact hbefore d hd

theorem IsBest.le (h : IsBest key wanted l c) {d : α} (hd : d∈l) (hwanted : wanted d=true) :
    key d ≤ key c := by
  obtain ⟨before,after,rfl,-,hbefore,hafter⟩ := h
  rcases List.mem_append.mp hd with hd | hd
  · exact (hbefore d hd hwanted).le
  · rcases List.mem_cons.mp hd with rfl | hd
    · exact le_rfl
    · exact hafter d hd hwanted

theorem isBest_head (ha : wanted a=true) (hle : ∀ d∈l, wanted d=true → key d ≤ key a) :
    IsBest key wanted (a::l) a :=
  ⟨[],l,rfl,ha,by simp,hle⟩

/-- The first one wanted after an insertion is the one inserted, unless one with a greater key was
the first before. -/
theorem find?_orderedInsert (wanted : α → Bool) (a : α) (hl : l.Pairwise (Before key)) :
    (l.orderedInsert (Before key) a).find? wanted =
      if wanted a=true ∧ ∀ c, l.find? wanted=some c → key c ≤ key a then some a
      else l.find? wanted := by
  induction l with
  | nil => cases hwanted : wanted a <;> simp [hwanted]
  | cons b l ih =>
    obtain ⟨hb,hrest⟩ := List.pairwise_cons.mp hl
    by_cases hle : key b ≤ key a
    · have hall : ∀ c, (b::l).find? wanted=some c → key c ≤ key a := by
        intro c hc
        rcases List.mem_cons.mp (List.mem_of_find?_eq_some hc) with rfl | hmem
        · exact hle
        · exact (hb c hmem).trans hle
      rw [List.orderedInsert_cons,if_pos hle]
      cases hwanted : wanted a with
      | true => rw [List.find?_cons_of_pos hwanted,if_pos ⟨rfl,hall⟩]
      | false => simp [hwanted]
    · rw [List.orderedInsert_cons,if_neg hle]
      cases hwanted : wanted b with
      | true => simp [hwanted,hle]
      | false => simpa [hwanted] using ih hrest

/-- The first one wanted of a sorted list is the best of the list as it was. -/
theorem find?_sortDesc (wanted : α → Bool) (l : List α) :
    (∃ c, (sortDesc key l).find? wanted=some c ∧ IsBest key wanted l c) ∨
      (sortDesc key l).find? wanted=none ∧ ∀ d∈l, wanted d=false := by
  induction l with
  | nil => exact Or.inr ⟨rfl,by simp⟩
  | cons a l ih =>
    have hstep := find?_orderedInsert wanted a (sortDesc_pairwise key l)
    rcases ih with ⟨c,hc,hbest⟩ | ⟨hnone,hall⟩
    · by_cases htake : wanted a=true ∧ key c ≤ key a
      · refine Or.inl ⟨a,?_,isBest_head htake.1 fun d hd hwanted =>
          (hbest.le hd hwanted).trans htake.2⟩
        refine hstep.trans (if_pos ⟨htake.1,fun c' hc' => ?_⟩)
        rw [← Option.some.inj (hc.symm.trans hc')]
        exact htake.2
      · refine Or.inl ⟨c,?_,hbest.cons_of_lt fun hwanted =>
          not_le.mp fun hle => htake ⟨hwanted,hle⟩⟩
        exact (hstep.trans (if_neg fun h => htake ⟨h.1,h.2 c hc⟩)).trans hc
    · cases hwanted : wanted a with
      | true =>
        have hfirst : ∀ c, (sortDesc key l).find? wanted=some c → key c ≤ key a := by
          intro c hc
          rw [hnone] at hc
          cases hc
        have hrest : ∀ d∈l, wanted d=true → key d ≤ key a := by
          intro d hd hd'
          rw [hall d hd] at hd'
          cases hd'
        exact Or.inl ⟨a,hstep.trans (if_pos ⟨hwanted,hfirst⟩),isBest_head hwanted hrest⟩
      | false =>
        refine Or.inr ⟨(hstep.trans (if_neg (by simp [hwanted]))).trans hnone,fun d hd => ?_⟩
        rcases List.mem_cons.mp hd with rfl | hd
        · exact hwanted
        · exact hall d hd

/-- Lists of the same entries are sorted into the same list if no two entries share a key. -/
theorem sortDesc_eq_of_perm {l₁ l₂ : List α} (hperm : l₁.Perm l₂)
    (hinj : ∀ a∈l₁, ∀ b∈l₁, key a=key b → a=b) : sortDesc key l₁=sortDesc key l₂ := by
  refine List.Perm.eq_of_pairwise (fun a b ha hb hab hba => ?_) (sortDesc_pairwise key l₁)
    (sortDesc_pairwise key l₂)
    ((sortDesc_perm key l₁).trans (hperm.trans (sortDesc_perm key l₂).symm))
  have ha' : a∈l₁ := (sortDesc_perm key l₁).mem_iff.mp ha
  have hb' : b∈l₁ := hperm.mem_iff.mpr ((sortDesc_perm key l₂).mem_iff.mp hb)
  exact hinj a ha' b hb' (le_antisymm hba hab)
end
end AetherX.StableSort
