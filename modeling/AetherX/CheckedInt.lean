import Mathlib.Algebra.Order.Group.Int
import Mathlib.Algebra.Order.Group.Unbundled.Abs

/-! Arithmetic on i64 as a build of a Rust program performs it: with overflow checks it panics
where the exact result does not fit, without them it wraps around. -/
namespace AetherX.CheckedInt

inductive Build where
  | debug
  | release
  deriving DecidableEq

inductive Panic where
  | overflow
  deriving DecidableEq

def Fits (x : Int) : Prop := -2^63 ≤ x ∧ x<2^63

instance (x : Int) : Decidable (Fits x) := inferInstanceAs (Decidable (_ ∧ _))

def sub (build : Build) (a b : Int64) : Except Panic Int64 :=
  match build with
  | .debug => if Fits (a.toInt-b.toInt) then .ok (a-b) else .error .overflow
  | .release => .ok (a-b)

def abs (build : Build) (a : Int64) : Except Panic Int64 :=
  if a<0 then sub build 0 a else .ok a

variable {build : Build} {a b : Int64}

theorem fits_toInt (a : Int64) : Fits a.toInt := ⟨a.le_toInt,a.toInt_lt⟩

theorem toInt_sub (h : Fits (a.toInt-b.toInt)) : (a-b).toInt=a.toInt-b.toInt := by
  rw [Int64.toInt_sub]
  exact Int.bmod_eq_of_le h.1 h.2

theorem sub_of_fits (build : Build) (h : Fits (a.toInt-b.toInt)) : sub build a b = .ok (a-b) := by
  cases build with
  | debug => rw [sub,if_pos h]
  | release => rfl

theorem sub_debug_of_not_fits (h : ¬ Fits (a.toInt-b.toInt)) :
    sub .debug a b = .error .overflow := by
  rw [sub,if_neg h]

theorem toInt_max (a b : Int64) : (max a b).toInt=max a.toInt b.toInt := by
  have hmax : max a b=if a ≤ b then b else a := rfl
  rw [hmax]
  split_ifs with h
  · rw [Int64.le_iff_toInt_le] at h
    omega
  · rw [Int64.le_iff_toInt_le] at h
    omega

theorem toInt_zero : (0 : Int64).toInt=0 := rfl

theorem neg_iff (a : Int64) : a<0 ↔ a.toInt<0 := by
  rw [Int64.lt_iff_toInt_lt,toInt_zero]

/-- The absolute value is exact, but for the least number, which has none. -/
theorem abs_of_fits (build : Build) (h : Fits (-a.toInt)) :
    ∃ d, abs build a = .ok d ∧ d.toInt = |a.toInt| := by
  rw [abs]
  split_ifs with hneg
  · rw [neg_iff] at hneg
    have hfits : Fits ((0 : Int64).toInt-a.toInt) := by rwa [toInt_zero,zero_sub]
    refine ⟨0-a,sub_of_fits build hfits,?_⟩
    rw [toInt_sub hfits,toInt_zero,zero_sub,abs_of_neg hneg]
  · rw [neg_iff] at hneg
    exact ⟨a,rfl,(abs_of_nonneg (not_lt.mp hneg)).symm⟩

theorem abs_debug_of_not_fits (h : ¬ Fits (-a.toInt)) : abs .debug a = .error .overflow := by
  have hneg : a.toInt<0 := by
    have hbound := fits_toInt a
    simp only [Fits] at h hbound
    omega
  rw [abs,if_pos ((neg_iff a).mpr hneg)]
  apply sub_debug_of_not_fits
  rwa [toInt_zero,zero_sub]

def distance (build : Build) (a b : Int64) : Except Panic Int64 := do
  let d ← sub build a b
  abs build d

theorem distance_of_lt (build : Build) (h : |a.toInt-b.toInt| < 2^63) :
    ∃ d, distance build a b = .ok d ∧ d.toInt = |a.toInt-b.toInt| := by
  obtain ⟨hlo,hhi⟩ := abs_lt.mp h
  have hfits : Fits (a.toInt-b.toInt) := ⟨hlo.le,hhi⟩
  have hneg : Fits (-(a-b).toInt) := by
    rw [toInt_sub hfits,Fits]
    omega
  obtain ⟨d,hd,hval⟩ := abs_of_fits build hneg
  refine ⟨d,?_,by rw [hval,toInt_sub hfits]⟩
  rw [distance,sub_of_fits build hfits]
  exact hd

theorem distance_debug_of_ge (h : ¬ |a.toInt-b.toInt| < 2^63) :
    distance .debug a b = .error .overflow := by
  by_cases hfits : Fits (a.toInt-b.toInt)
  · rw [distance,sub_of_fits .debug hfits]
    apply abs_debug_of_not_fits
    intro hneg
    rw [toInt_sub hfits] at hneg
    simp only [Fits] at hfits hneg
    exact h (abs_lt.mpr ⟨by omega,by omega⟩)
  · rw [distance,sub_debug_of_not_fits hfits]
    rfl

end AetherX.CheckedInt
