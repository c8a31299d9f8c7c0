import AetherX.HashTree
import Mathlib.Data.Nat.Log

/-! Rows folded pairwise up to a single element, an odd row first repeating its last
element. The fold is stated once for any pairing operation and carried between
digests, trees and bottom rows by homomorphisms. -/
namespace AetherX.PairLevels
open HashTree
variable {α β : Type*}

def padLast (row : List α) : List α :=
  if row.length%2=1 then row++row.getLast?.toList else row

variable (row : List α)

theorem length_padLast : (padLast row).length=2*((row.length+1)/2) := by
  unfold padLast
  split_ifs with h
  · have hne : row≠[] := by rintro rfl; simp at h
    simp [List.getLast?_eq_some_getLast hne]
    omega
  · omega

theorem padLast_even : (padLast row).length%2=0 := by
  rw [length_padLast]
  omega

theorem padLast_map (f : α → β) (row : List α) : padLast (row.map f)=(padLast row).map f := by
  unfold padLast
  split_ifs <;> simp_all [List.getLast?_map,Option.map]
  cases row.getLast? <;> rfl

variable {row : List α}

theorem mem_padLast {a : α} (h : a∈padLast row) : a∈row := by
  unfold padLast at h
  split_ifs at h with ho
  · rcases List.mem_append.mp h with h | h
    · exact h
    · exact List.mem_of_getLast? (Option.mem_toList.mp h)
  · exact h

theorem padLast_getElem {i : Nat} (h : i < row.length) : (padLast row)[i]? = row[i]? := by
  unfold padLast
  split_ifs
  · exact List.getElem?_append_left h
  · rfl

/- The evenness argument is what makes the second element of every pair exist. -/
def pairUp (node : α → α → α) : (row : List α) → row.length%2=0 → List α
  | [], _ => []
  | [_], h => absurd h (by simp)
  | a::b::rest, h =>
    node a b::pairUp node rest (by simp only [List.length_cons] at h; omega)

variable (node : α → α → α)

theorem length_pairUp (row : List α) (h : row.length%2=0) :
    (pairUp node row h).length=row.length/2 := by
  induction row, h using pairUp.induct with
  | case1 h => simp [pairUp]
  | case2 a b rest h ih => simp [pairUp,ih]; omega

theorem pairUp_map {node : α → α → α} {node' : β → β → β} {f : α → β}
    (hf : ∀ a b, f (node a b)=node' (f a) (f b)) (row : List α) (h : row.length%2=0) :
    (pairUp node row h).map f=pairUp node' (row.map f) (by simpa using h) := by
  induction row, h using pairUp.induct with
  | case1 h => simp [pairUp]
  | case2 a b rest h ih => simp [pairUp,ih,hf]

theorem pairUp_getElem (row : List α) (h : row.length%2=0) {i : Nat} {a b : α}
    (ha : row[2*i]? = some a) (hb : row[2*i+1]? = some b) :
    (pairUp node row h)[i]? = some (node a b) := by
  induction row, h using pairUp.induct generalizing i with
  | case1 h => simp at ha
  | case2 c d rest h ih =>
    cases i with
    | zero => simp_all [pairUp]
    | succ i =>
      rw [show 2*(i+1)=2*i+1+1 by omega] at ha hb
      simp only [List.getElem?_cons_succ] at ha hb
      simpa [pairUp] using ih ha hb

theorem pairUp_all {P Q : α → Prop} {node : α → α → α}
    (hn : ∀ a b, P a → P b → Q (node a b)) (row : List α) (h : row.length%2=0)
    (hp : ∀ a∈row, P a) : ∀ a∈pairUp node row h, Q a := by
  induction row, h using pairUp.induct with
  | case1 h => simp [pairUp]
  | case2 a b rest h ih =>
    have hr : ∀ c∈rest, P c := fun c hc => hp c (by simp [hc])
    intro c hc
    rcases List.mem_cons.mp hc with rfl | hc
    · exact hn a b (hp a (by simp)) (hp b (by simp))
    · exact ih hr c hc

def nextRow (node : α → α → α) (row : List α) : List α :=
  pairUp node (padLast row) (padLast_even row)

theorem length_nextRow (row : List α) : (nextRow node row).length=(row.length+1)/2 := by
  rw [nextRow,length_pairUp,length_padLast]
  omega

theorem nextRow_map {node : α → α → α} {node' : β → β → β} {f : α → β}
    (hf : ∀ a b, f (node a b)=node' (f a) (f b)) (row : List α) :
    (nextRow node row).map f=nextRow node' (row.map f) := by
  unfold nextRow
  rw [pairUp_map hf]
  congr 1
  exact (padLast_map f row).symm

/- All the rows, bottom first. Every row but the last is kept padded. -/
def levels (node : α → α → α) (row : List α) : List (List α) :=
  if 1 < row.length then padLast row::levels node (nextRow node row) else [row]
termination_by row.length
decreasing_by rw [length_nextRow]; omega

theorem levels_of_le_one (h : row.length≤1) : levels node row=[row] := by
  rw [levels,if_neg (by omega)]

theorem levels_of_one_lt (h : 1 < row.length) :
    levels node row=padLast row::levels node (nextRow node row) := by
  rw [levels,if_pos h]

theorem levels_ne_nil (row : List α) : levels node row≠[] := by
  rw [levels]
  split_ifs <;> simp

/- What the fold ends in; none only for the empty row. -/
def top (node : α → α → α) (row : List α) : Option α :=
  (levels node row).getLast?.bind List.head?

theorem top_of_one_lt (h : 1 < row.length) : top node row=top node (nextRow node row) := by
  rw [top,levels_of_one_lt node h,List.getLast?_cons]
  rw [List.getLast?_eq_some_getLast (levels_ne_nil node _)]
  simp [top,List.getLast?_eq_some_getLast (levels_ne_nil node _)]

theorem top_singleton (a : α) : top node [a]=some a := by
  simp [top,levels_of_le_one]

theorem top_nil : top node ([] : List α)=none := by
  simp [top,levels_of_le_one]

/-- Induction along the fold: settle single elements, then one turn at a time. -/
@[elab_as_elim]
theorem fold_induction {motive : List α → Prop} (single : ∀ a, motive [a])
    (turn : ∀ row, 1 < row.length → motive (nextRow node row) → motive row) (row : List α)
    (hne : row≠[]) : motive row := by
  induction hn : row.length using Nat.strong_induction_on generalizing row with
  | _ n ih =>
    subst hn
    by_cases h : 1 < row.length
    · have hlen := length_nextRow node row
      apply turn row h
      apply ih _ (by omega) _ _ rfl
      exact List.ne_nil_of_length_pos (by omega)
    · obtain ⟨a,rfl⟩ : ∃ a, row=[a] := by
        apply List.length_eq_one_iff.mp
        have := List.length_pos_iff.mpr hne
        omega
      exact single a

theorem top_map (node' : β → β → β) (f : α → β) (hf : ∀ a b, f (node a b)=node' (f a) (f b))
    (row : List α) (hne : row≠[]) : top node' (row.map f)=(top node row).map f := by
  refine fold_induction node ?_ ?_ row hne
  · intro a
    simp [top_singleton]
  · intro row h ih
    rw [top_of_one_lt node h,top_of_one_lt node' (by simpa using h),← nextRow_map hf]
    exact ih

theorem clog_turn {n : Nat} (h : 1 < n) : Nat.clog 2 n=Nat.clog 2 ((n+1)/2)+1 := by
  rw [Nat.clog_of_two_le (by omega) h,show n+2-1=n+1 by omega]

/-- Folding trees of one height gives one perfect tree. -/
theorem top_perfect {D : Type*} {k : Nat} (row : List (LeafTree D)) (hne : row≠[])
    (hp : ∀ t∈row, LeafTree.Perfect k t) :
    ∃ t, top LeafTree.node row=some t ∧ LeafTree.Perfect (k+Nat.clog 2 row.length) t := by
  refine fold_induction (motive := fun row => ∀ {k : Nat}, (∀ t∈row, LeafTree.Perfect k t) →
    ∃ t, top LeafTree.node row=some t ∧ LeafTree.Perfect (k+Nat.clog 2 row.length) t)
    LeafTree.node ?_ ?_ row hne hp
  · intro t k hp
    exact ⟨t,top_singleton _ t,by simpa using hp t (by simp)⟩
  · intro row h ih k hp
    have hnext : ∀ t∈nextRow LeafTree.node row, LeafTree.Perfect (k+1) t :=
      pairUp_all (fun a b ha hb => ⟨ha,hb⟩) _ _ (fun t ht => hp t (mem_padLast ht))
    obtain ⟨t,ht,hperf⟩ := ih hnext
    refine ⟨t,by rw [top_of_one_lt _ h,ht],?_⟩
    rw [clog_turn h]
    rw [length_nextRow] at hperf
    convert hperf using 1
    omega

end AetherX.PairLevels
