import Mathlib.Data.List.GetD
import AetherX.BigEndian
import AetherX.CheckedInt

/-! Lengths and positions as a Rust program on a 32-bit or a 64-bit machine computes them: a sum
that does not fit panics in a build with overflow checks and wraps around in one without, and so
does an access out of range in either. -/
namespace AetherX.CheckedWord
open BigEndian
open CheckedInt (Build)

inductive Target where
  | bits32
  | bits64
  deriving DecidableEq

def Target.bits : Target → Nat
  | .bits32 => 32
  | .bits64 => 64

inductive Panic where
  | overflow
  | outOfRange
  deriving DecidableEq

variable {α : Type} {build : Build} {target : Target}

def add (build : Build) (target : Target) (a b : Nat) : Except Panic Nat :=
  if a+b<2^target.bits then .ok (a+b)
  else
    match build with
    | .debug => .error .overflow
    | .release => .ok ((a+b)%2^target.bits)

def sub (build : Build) (target : Target) (a b : Nat) : Except Panic Nat :=
  if b ≤ a then .ok (a-b)
  else
    match build with
    | .debug => .error .overflow
    | .release => .ok ((2^target.bits+a-b)%2^target.bits)

def checkedAdd (target : Target) (a b : Nat) : Option Nat :=
  if a+b<2^target.bits then some (a+b) else none

def index (xs : List α) (i : Nat) : Except Panic α :=
  match xs[i]? with
  | some x => .ok x
  | none => .error .outOfRange

def slice (xs : List α) (first last : Nat) : Except Panic (List α) :=
  if first ≤ last ∧ last ≤ xs.length then .ok ((xs.drop first).take (last-first))
  else .error .outOfRange

def numberAt (bytes : List UInt8) (positions : List Nat) : Except Panic Nat := do
  let read ← positions.mapM (index bytes)
  return ofBytes read

theorem Target.pow_ge (target : Target) : 2^32≤2^target.bits := by
  cases target <;> decide

variable {a b : Nat} {xs : List α}

theorem add_of_lt (h : a+b<2^target.bits) : add build target a b = .ok (a+b) :=
  if_pos h

theorem sub_of_le (h : b ≤ a) : sub build target a b = .ok (a-b) :=
  if_pos h

theorem add_debug_of_ge (h : 2^target.bits ≤ a+b) : add .debug target a b = .error .overflow :=
  if_neg (Nat.not_lt.mpr h)

theorem checkedAdd_of_lt (h : a+b<2^target.bits) : checkedAdd target a b=some (a+b) :=
  if_pos h

theorem index_of_getElem? {i : Nat} {x : α} (h : xs[i]? = some x) : index xs i = .ok x := by
  rw [index,h]

theorem index_of_lt {i : Nat} (d : α) (h : i < xs.length) : index xs i = .ok (xs.getD i d) := by
  rw [index,List.getElem?_eq_getElem h,List.getD_eq_getElem _ _ h]

theorem slice_of_le {first last : Nat} (h : first ≤ last) (hlast : last ≤ xs.length) :
    slice xs first last = .ok ((xs.drop first).take (last-first)) :=
  if_pos ⟨h,hlast⟩

theorem mapM_index_range (xs : List α) (first w : Nat) (h : first+w ≤ xs.length) :
    (List.range' first w).mapM (index xs) = .ok ((xs.drop first).take w) := by
  induction w generalizing first with
  | zero => rfl
  | succ w ih =>
    have hlt : first < xs.length := by omega
    have hread : index xs first = .ok xs[first] := by
      rw [index,List.getElem?_eq_getElem hlt]
    rw [List.range'_succ,List.mapM_cons,hread,ih (first+1) (by omega),
      List.drop_eq_getElem_cons hlt,List.take_succ_cons]
    rfl

/-- Consecutive positions in range spell the number that stands there. -/
theorem numberAt_range {bytes : List UInt8} {first w : Nat} (h : first+w ≤ bytes.length) :
    numberAt bytes (List.range' first w) = .ok (readAt bytes first w) := by
  rw [numberAt,mapM_index_range bytes first w h]
  rfl

/- No object is larger than half of the address space. -/
structure ByteSlice (target : Target) where
  bytes : List UInt8
  fits : bytes.length<2^(target.bits-1)

theorem ByteSlice.add_lt (s : ByteSlice target) {n : Nat} (h : n ≤ s.bytes.length+2^31) :
    n<2^target.bits := by
  have hfits := s.fits
  cases target with
  | bits32 => simp only [Target.bits] at hfits ⊢; omega
  | bits64 => simp only [Target.bits] at hfits ⊢; omega

section
/- A function that returns a value or an error without content, unless it panics. -/
abbrev Fallible := ExceptT Unit (Except Panic)

variable {α β : Type}

def returned (a : α) : Fallible α := ExceptT.mk (.ok (.ok a))

def failed : Fallible α := ExceptT.mk (.ok (.error ()))

def need : Option α → Fallible α
  | some a => returned a
  | none => failed

def ensure (p : Prop) [Decidable p] : Fallible Unit := if p then returned () else failed

def run : Except Panic α → Fallible α
  | .ok a => returned a
  | .error p => ExceptT.mk (.error p)

@[simp] theorem returned_bind (a : α) (f : α → Fallible β) : (returned a >>= f)=f a := rfl

/- No panic, and a value only if it meets the condition. -/
def Meets (x : Fallible α) (P : α → Prop) : Prop := x=failed ∨ ∃ a, x=returned a ∧ P a

variable {P : α → Prop} {Q : β → Prop} {x : Fallible α}

theorem meets_returned {a : α} (h : P a) : Meets (returned a) P := Or.inr ⟨a,rfl,h⟩

theorem meets_failed : Meets (failed : Fallible α) P := Or.inl rfl

theorem meets_need {o : Option α} (h : ∀ a, o=some a → P a) : Meets (need o) P := by
  cases o with
  | none => exact meets_failed
  | some a => exact meets_returned (h a rfl)

theorem meets_ensure (p : Prop) [Decidable p] : Meets (ensure p) fun _ => p := by
  by_cases h : p
  · exact Or.inr ⟨(),if_pos h,h⟩
  · exact Or.inl (if_neg h)

theorem ensure_bind {p : Prop} [Decidable p] (h : p) (f : Unit → Fallible β) :
    (ensure p >>= f)=f () := by
  rw [ensure,if_pos h,returned_bind]

theorem meets_run {e : Except Panic α} {a : α} (he : e = .ok a) (h : P a) : Meets (run e) P := by
  rw [he]
  exact meets_returned h

theorem Meets.bind {f : α → Fallible β} (h : Meets x P) (hf : ∀ a, P a → Meets (f a) Q) :
    Meets (x >>= f) Q := by
  rcases h with rfl | ⟨a,rfl,ha⟩
  · exact meets_failed
  · exact hf a ha

theorem Meets.returns (h : Meets x P) : ∃ r, x.run = .ok r := by
  rcases h with rfl | ⟨a,rfl,_⟩
  · exact ⟨_,rfl⟩
  · exact ⟨_,rfl⟩
end

end AetherX.CheckedWord
