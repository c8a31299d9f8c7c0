import Mathlib.Data.Set.Function

/-! Pieces written one after another, and when they can be told apart again: behind a fixed
width, behind a length, behind a count, or at a separator. -/
namespace AetherX.Framing
variable {α γ : Type*}

/-- Whatever follows the code of a good value, the value and the rest can be read off. -/
def SelfDelimiting (good : Set α) (code : α → List γ) : Prop :=
  ∀ a∈good, ∀ b∈good, ∀ s t, code a++s=code b++t → a=b ∧ s=t

section
variable {good : Set α} {code : α → List γ}

theorem SelfDelimiting.injOn (h : SelfDelimiting good code) : Set.InjOn code good := by
  intro a ha b hb heq
  exact (h a ha b hb [] [] (by rw [heq])).1

theorem selfDelimiting_of_width {w : Nat} (hw : ∀ a∈good, (code a).length=w)
    (hinj : Set.InjOn code good) : SelfDelimiting good code := by
  intro a ha b hb s t heq
  obtain ⟨hcode,hrest⟩ := List.append_inj heq (by rw [hw a ha,hw b hb])
  exact ⟨hinj ha hb hcode,hrest⟩

theorem SelfDelimiting.framed {sizes : Set Nat} {size : Nat → List γ}
    (h : SelfDelimiting sizes size) :
    SelfDelimiting {p : List γ | p.length∈sizes} fun p => size p.length++p := by
  intro p hp q hq s t heq
  simp only [List.append_assoc] at heq
  obtain ⟨hlen,hrest⟩ := h _ hp _ hq _ _ heq
  exact List.append_inj hrest hlen

/- Equally many values in a row; the induction takes one off both sides. -/
theorem SelfDelimiting.sequence (h : SelfDelimiting good code) {xs ys : List α} {s t : List γ}
    (hx : ∀ x∈xs, x∈good) (hy : ∀ y∈ys, y∈good) (hlen : xs.length=ys.length)
    (heq : xs.flatMap code++s=ys.flatMap code++t) : xs=ys ∧ s=t := by
  induction xs generalizing ys with
  | nil =>
    obtain rfl : ys=[] := List.length_eq_zero_iff.mp hlen.symm
    exact ⟨rfl,heq⟩
  | cons x xs ih =>
    obtain ⟨y,ys,rfl⟩ := List.exists_cons_of_length_eq_add_one hlen.symm
    rw [List.forall_mem_cons] at hx hy
    simp only [List.flatMap_cons,List.append_assoc] at heq
    obtain ⟨rfl,hrest⟩ := h x hx.1 y hy.1 _ _ heq
    obtain ⟨rfl,htail⟩ := ih hx.2 hy.2 (Nat.succ.inj hlen) hrest
    exact ⟨rfl,htail⟩

theorem SelfDelimiting.counted {sizes : Set Nat} {size : Nat → List γ}
    (hsize : SelfDelimiting sizes size) (h : SelfDelimiting good code) :
    SelfDelimiting {xs : List α | xs.length∈sizes ∧ ∀ x∈xs, x∈good}
      fun xs => size xs.length++xs.flatMap code := by
  intro xs hx ys hy s t heq
  simp only [List.append_assoc] at heq
  obtain ⟨hlen,hrest⟩ := hsize _ hx.1 _ hy.1 _ _ heq
  exact h.sequence hx.2 hy.2 hlen hrest
end

/-- A separator shows where the first part ends exactly if neither part contains it. -/
theorem separated_unique_iff (c : γ) (a b : List γ) :
    (∀ a' b', a'++c::b'=a++c::b → a'=a ∧ b'=b) ↔ c∉a ∧ c∉b := by
  constructor
  · intro huniq
    -- at any other separator the text could have been cut as well
    constructor
    · intro hmem
      obtain ⟨x,y,rfl⟩ := List.append_of_mem hmem
      have hcut := (huniq x (y++c::b) (by simp)).1
      simpa using congrArg List.length hcut
    · intro hmem
      obtain ⟨x,y,rfl⟩ := List.append_of_mem hmem
      have hcut := (huniq (a++c::x) y (by simp)).1
      simpa using congrArg List.length hcut
  · rintro ⟨ha,hb⟩ a' b' heq
    rcases List.append_eq_append_iff.mp heq with ⟨x,rfl,hx⟩ | ⟨x,rfl,hx⟩
    · cases x with
      | nil => simpa using hx
      | cons y x =>
        obtain ⟨rfl,-⟩ := List.cons.inj hx
        exact absurd (by simp) ha
    · cases x with
      | nil => simpa using hx.symm
      | cons y x =>
        obtain ⟨rfl,rfl⟩ := List.cons.inj hx
        exact absurd (by simp) hb

end AetherX.Framing
