import Mathlib.Data.Finset.Sort
import Mathlib.Data.List.Destutter

/-! Cutting a list at positions strictly inside it. -/
namespace AetherX.CutPoints
open List
variable {α : Type*}

section
variable [LinearOrder α]

/- Sorted, and then without repeated neighbours. -/
def sortDistinct (l : List α) : List α := (l.insertionSort (· ≤ ·)).destutter (· ≠ ·)

theorem sortDistinct_eq (l : List α) : sortDistinct l=l.toFinset.sort (· ≤ ·) := by
  have hsorted : (l.insertionSort (· ≤ ·)).Pairwise (· ≤ ·) :=
    pairwise_insertionSort (· ≤ ·) l
  have hset : (l.insertionSort (· ≤ ·)).dedup.toFinset=l.toFinset := by
    ext a
    simp
  have hsort := (toFinset_sort (· ≤ ·) (nodup_dedup (l.insertionSort (· ≤ ·)))).mpr
    (hsorted.sublist (dedup_sublist _))
  rw [sortDistinct,hsorted.destutter_eq_dedup,← hset,hsort]

theorem mem_sortDistinct {l : List α} {a : α} : a∈sortDistinct l ↔ a∈l := by
  rw [sortDistinct_eq,Finset.mem_sort,mem_toFinset]

theorem sortDistinct_pairwise (l : List α) : (sortDistinct l).Pairwise (· < ·) := by
  rw [sortDistinct_eq]
  exact (Finset.sortedLT_sort l.toFinset).pairwise

theorem sortDistinct_length_le (l : List α) : (sortDistinct l).length ≤ l.length := by
  rw [sortDistinct_eq,Finset.length_sort]
  exact toFinset_card_le l

theorem sortDistinct_eq_iff {l l' : List α} :
    sortDistinct l=sortDistinct l' ↔ ∀ a, a∈l ↔ a∈l' := by
  constructor
  · intro h a
    rw [← mem_sortDistinct,h,mem_sortDistinct]
  · intro h
    have hset : l.toFinset=l'.toFinset := by
      ext a
      simp [h a]
    rw [sortDistinct_eq,sortDistinct_eq,hset]

theorem filter_sortDistinct (p : α → Bool) (l : List α) :
    (sortDistinct l).filter p=sortDistinct (l.filter p) := by
  have hleft := (sortDistinct_pairwise l).filter p
  have hright := sortDistinct_pairwise (l.filter p)
  have hperm : ((sortDistinct l).filter p).Perm (sortDistinct (l.filter p)) := by
    refine (perm_ext_iff_of_nodup hleft.nodup hright.nodup).mpr fun a => ?_
    simp [mem_sortDistinct]
  exact hperm.eq_of_pairwise (fun a b _ _ hab hba => absurd (hab.trans hba) (lt_irrefl a)) hleft hright
end

abbrev Inside (n p : Nat) : Prop := 0 < p ∧ p < n

structure Cut (n : Nat) where
  positions : List Nat
  increasing : positions.Pairwise (· < ·)
  inside : ∀ p∈positions, Inside n p

/- The pieces between one position after the other, from the last cut on. -/
def pieces (xs : List α) (last : Nat) : List Nat → List (List α)
  | [] => [xs.drop last]
  | p::ps => (xs.drop last).take (p-last)::pieces xs p ps

variable {xs : List α} {last : Nat} {ps : List Nat}

theorem pieces_flatten (xs : List α) (h : (last::ps).Pairwise (· < ·)) :
    (pieces xs last ps).flatten=xs.drop last := by
  induction ps generalizing last with
  | nil => simp [pieces]
  | cons p ps ih =>
    obtain ⟨hlast,hrest⟩ := pairwise_cons.mp h
    have hlt : last < p := hlast p mem_cons_self
    have hdrop : xs.drop p=(xs.drop last).drop (p-last) := by
      rw [drop_drop]
      congr 1
      omega
    rw [pieces,flatten_cons,ih hrest,hdrop,take_append_drop]

theorem pieces_ne_nil (h : (last::ps).Pairwise (· < ·)) (hlt : ∀ p∈last::ps, p < xs.length) :
    ∀ piece∈pieces xs last ps, piece≠[] := by
  have hhere : last < xs.length := hlt last mem_cons_self
  induction ps generalizing last with
  | nil =>
    intro piece hpiece
    rw [pieces,mem_singleton] at hpiece
    rw [hpiece,ne_eq,drop_eq_nil_iff]
    omega
  | cons p ps ih =>
    obtain ⟨hlast,hrest⟩ := pairwise_cons.mp h
    have hnext : last < p := hlast p mem_cons_self
    have htail : ∀ q∈p::ps, q < xs.length := fun q hq => hlt q (mem_cons_of_mem _ hq)
    intro piece hpiece
    rcases mem_cons.mp hpiece with rfl | hpiece
    · rw [ne_eq,take_eq_nil_iff,drop_eq_nil_iff]
      omega
    · exact ih hrest htail (htail p mem_cons_self) piece hpiece

namespace Cut
/- The given positions that are inside, each once and in order. -/
def ofList (n : Nat) (l : List Nat) : Cut n where
  positions := sortDistinct (l.filter (Inside n ·))
  increasing := sortDistinct_pairwise _
  inside p hp := by simpa using (mem_filter.mp (mem_sortDistinct.mp hp)).2

theorem ofList_positions (n : Nat) (l : List Nat) :
    (ofList n l).positions={p∈l.toFinset | Inside n p}.sort (· ≤ ·) := by
  refine (sortDistinct_eq _).trans ?_
  rw [toFinset_filter]
  simp

theorem ofList_eq_iff {n : Nat} {l l' : List Nat} :
    (ofList n l).positions=(ofList n l').positions ↔ ∀ p, Inside n p → (p∈l ↔ p∈l') := by
  rw [ofList,ofList,sortDistinct_eq_iff]
  refine forall_congr' fun p => ?_
  by_cases hp : Inside n p
  · simp [hp.1,hp.2]
  · simp only [mem_filter,decide_eq_true_eq,hp,and_false,false_imp_iff]

variable (c : Cut xs.length)

theorem from_start : (0::c.positions).Pairwise (· < ·) :=
  pairwise_cons.mpr ⟨fun p hp => (c.inside p hp).1,c.increasing⟩

theorem flatten_pieces : (pieces xs 0 c.positions).flatten=xs := pieces_flatten xs c.from_start

theorem piece_ne_nil (hxs : xs≠[]) : ∀ piece∈pieces xs 0 c.positions, piece≠[] := by
  refine pieces_ne_nil c.from_start fun p hp => ?_
  rcases mem_cons.mp hp with rfl | hp
  · exact length_pos_iff.mpr hxs
  · exact (c.inside p hp).2

end Cut
end AetherX.CutPoints
