import Mathlib.Data.List.GetD
import AetherX.BitString

/-! Cyclic redundancy checks of any width: a shift register that takes in a bit string. With a
generator whose lowest bit is set, no nonzero error that is confined to as many consecutive bits
as the register is wide goes unnoticed. -/
namespace AetherX.ShiftRegister
open BitString List

section
variable {w : Nat} (g : BitVec w)

/- The generator is added when the bit that leaves differs from the one that comes in. -/
def feed (r : BitVec w) (b : Bool) : BitVec w := (r <<< 1) ^^^ (if r.msb ^^ b then g else 0#w)

def feedAll (r : BitVec w) (bs : List Bool) : BitVec w := bs.foldl (feed g) r

variable (r : BitVec w)

@[simp] theorem feedAll_nil : feedAll g r []=r := rfl

@[simp] theorem feedAll_cons (b : Bool) (bs : List Bool) :
    feedAll g r (b::bs)=feedAll g (feed g r b) bs := rfl

theorem feedAll_append (as bs : List Bool) :
    feedAll g r (as++bs)=feedAll g (feedAll g r as) bs := foldl_append

theorem getMsbD_shiftLeft_one (i : Nat) : (r <<< 1).getMsbD i=r.getMsbD (i+1) := by
  simp [BitVec.getMsbD_shiftLeft]

/-- The register is linear in what it holds and in what it is fed. -/
theorem feed_xor (s : BitVec w) (a b : Bool) :
    feed g (r ^^^ s) (a ^^ b)=feed g r a ^^^ feed g s b := by
  have hadded : (if (r.msb ^^ s.msb) ^^ (a ^^ b) then g else 0#w) =
      (if r.msb ^^ a then g else 0#w) ^^^ (if s.msb ^^ b then g else 0#w) := by
    cases r.msb <;> cases s.msb <;> cases a <;> cases b <;> simp
  simp only [feed,BitVec.shiftLeft_xor_distrib,BitVec.msb_xor,hadded]
  ac_rfl

theorem feedAll_xor {as bs : List Bool} (h : as.length=bs.length) (r s : BitVec w) :
    feedAll g (r ^^^ s) (zipWith xor as bs)=feedAll g r as ^^^ feedAll g s bs := by
  induction as generalizing bs r s with
  | nil =>
    cases bs with
    | nil => rfl
    | cons b bs => cases h
  | cons a as ih =>
    cases bs with
    | nil => cases h
    | cons b bs => rw [zipWith_cons_cons,feedAll_cons,feed_xor,ih (Nat.succ.inj h)]; rfl

/-- Bits that are added to the top of the register may as well be fed to it. -/
theorem iterate_feed_xor (x : BitVec w) (bs : List Bool) (hx : ∀ i, x.getMsbD i=bs.getD i false) :
    (feed g · false)^[bs.length] (r ^^^ x)=feedAll g r bs := by
  induction bs generalizing r x with
  | nil =>
    have hzero : x=0#w := by
      apply BitVec.eq_of_getMsbD_eq
      intro i _
      simpa using hx i
    simp [hzero]
  | cons b bs ih =>
    have hmsb : x.msb=b := by simpa [BitVec.msb_eq_getMsbD_zero] using hx 0
    have hstep : feed g (r ^^^ x) false=feed g r b ^^^ (x <<< 1) := by
      simp only [feed,BitVec.shiftLeft_xor_distrib,BitVec.msb_xor,hmsb,Bool.xor_false]
      rw [BitVec.xor_assoc,BitVec.xor_comm (x <<< 1),BitVec.xor_assoc]
    have hrest : ∀ i, (x <<< 1).getMsbD i=bs.getD i false := by
      intro i
      rw [getMsbD_shiftLeft_one,hx,getD_cons_succ]
    rw [length_cons,Function.iterate_succ_apply,hstep,ih _ _ hrest,feedAll_cons]
end

section
variable {w : Nat} {g : BitVec w} (hg : g.getLsbD 0=true)
include hg

theorem feed_getLsbD_zero (r : BitVec w) (b : Bool) : (feed g r b).getLsbD 0=(r.msb ^^ b) := by
  have hw : 0 < w := Nat.pos_of_ne_zero (by rintro rfl; simp at hg)
  cases hx : (r.msb ^^ b) <;> simp [feed,hx,hg]

/-- Not more bits than the register has bring it to zero exactly if they are the ones it holds. -/
theorem feedAll_eq_zero_iff (r : BitVec w) {bs : List Bool} (h : bs.length ≤ w) :
    feedAll g r bs=0#w ↔ ∀ i, r.getMsbD i=bs.getD i false := by
  induction bs generalizing r with
  | nil =>
    constructor
    · rintro rfl i
      simp
    · intro hr
      apply BitVec.eq_of_getMsbD_eq
      intro i _
      simpa using hr i
  | cons b bs ih =>
    rw [length_cons] at h
    rw [feedAll_cons,ih _ (Nat.le_of_succ_le h)]
    -- the lowest bit tells whether the generator was added, and nothing else is left of it
    have hequal : (∀ i, (feed g r b).getMsbD i=bs.getD i false) → r.msb=b := by
      intro hall
      have hlow : (feed g r b).getLsbD 0=false := by
        rw [BitVec.getLsbD_eq_getMsbD,hall,getD_eq_default _ _ (by omega),Bool.and_false]
      rw [feed_getLsbD_zero hg] at hlow
      simpa using hlow
    have hshift : r.msb=b → feed g r b=r <<< 1 := by
      intro hmsb
      simp [feed,hmsb]
    constructor
    · intro hall i
      have hmsb := hequal hall
      cases i with
      | zero => rw [← BitVec.msb_eq_getMsbD_zero,hmsb,getD_cons_zero]
      | succ i =>
        have hbit := hall i
        rwa [hshift hmsb,getMsbD_shiftLeft_one] at hbit
    · intro hall i
      have hmsb : r.msb=b := by
        rw [BitVec.msb_eq_getMsbD_zero,hall,getD_cons_zero]
      rw [hshift hmsb,getMsbD_shiftLeft_one,hall,getD_cons_succ]

/-- A register that is fed what it holds ends at zero. -/
theorem feedAll_self (r : BitVec w) : feedAll g r (bits w r.toNat)=0#w := by
  rw [feedAll_eq_zero_iff hg r (Nat.le_of_eq (length_bits w r.toNat))]
  intro i
  rw [getD_bits,BitVec.getMsbD_eq_getLsbD]
  rfl

/-- Zeros leave nothing unnoticed. -/
theorem feedAll_zeros_eq_zero_iff (r : BitVec w) {bs : List Bool} (h : ∀ b∈bs, b=false) :
    feedAll g r bs=0#w ↔ r=0#w := by
  have hw : 1 ≤ w := Nat.pos_of_ne_zero (by rintro rfl; simp at hg)
  induction bs generalizing r with
  | nil => rfl
  | cons b bs ih =>
    rw [forall_mem_cons] at h
    obtain ⟨rfl,hrest⟩ := h
    have hlength : [false].length ≤ w := hw
    have hstep : feed g r false=0#w ↔ ∀ i, r.getMsbD i=[false].getD i false :=
      feedAll_eq_zero_iff hg r hlength
    have hclear : (∀ i, r.getMsbD i=[false].getD i false) ↔ r=0#w := by
      constructor
      · intro hall
        apply BitVec.eq_of_getMsbD_eq
        intro i _
        rw [hall]
        cases i <;> simp
      · rintro rfl i
        cases i <;> simp
    exact (ih (feed g r false) hrest).trans (hstep.trans hclear)
end

/- Every error lies in the `width` bits from position `first` on. -/
def Confined (first width : Nat) (error : List Bool) : Prop :=
  ∀ i, error.getD i false=true → first ≤ i ∧ i < first+width

theorem confined_iff (first width : Nat) (error : List Bool) : Confined first width error ↔
    ∀ i < error.length, error.getD i false=true → first ≤ i ∧ i < first+width := by
  refine ⟨fun h i _ => h i,fun h i hset => ?_⟩
  by_cases hi : i < error.length
  · exact h i hi hset
  · rw [getD_eq_default _ _ (Nat.le_of_not_lt hi)] at hset
    cases hset

instance (first width : Nat) (error : List Bool) : Decidable (Confined first width error) :=
  decidable_of_iff' _ (confined_iff first width error)

variable {error : List Bool}

theorem Confined.before {first width : Nat} (h : Confined first width error) :
    ∀ b∈error.take first, b=false := by
  intro b hb
  obtain ⟨i,hi,rfl⟩ := mem_iff_getElem.mp hb
  rw [length_take] at hi
  by_contra hset
  have hone : error.getD i false=true := by
    rw [getD_eq_getElem _ _ (by omega)]
    simpa using hset
  have hle := (h i hone).1
  omega

theorem Confined.after {first width : Nat} (h : Confined first width error) :
    ∀ b∈(error.drop first).drop width, b=false := by
  intro b hb
  rw [drop_drop] at hb
  obtain ⟨i,hi,rfl⟩ := mem_iff_getElem.mp hb
  rw [length_drop] at hi
  by_contra hset
  have hone : error.getD (first+width+i) false=true := by
    rw [getD_eq_getElem _ _ (by omega)]
    simpa using hset
  have hlt := (h _ hone).2
  omega

/-- A burst leaves its mark in the register. -/
theorem feedAll_burst_ne_zero {w : Nat} {g : BitVec w} (hg : g.getLsbD 0=true) {first : Nat}
    (hconfined : Confined first w error) (hmem : true∈error) : feedAll g 0#w error≠0#w := by
  intro hzero
  have hsplit : error=error.take first++((error.drop first).take w ++
      (error.drop first).drop w) := by
    rw [take_append_drop,take_append_drop]
  have hbefore : feedAll g 0#w (error.take first)=0#w :=
    (feedAll_zeros_eq_zero_iff hg _ hconfined.before).mpr rfl
  rw [hsplit,feedAll_append,feedAll_append,hbefore,
    feedAll_zeros_eq_zero_iff hg _ hconfined.after,
    feedAll_eq_zero_iff hg _ (length_take_le ..)] at hzero
  have hwindow : ∀ b∈(error.drop first).take w, b=false := by
    intro b hb
    obtain ⟨i,hi,rfl⟩ := mem_iff_getElem.mp hb
    have hbit := hzero i
    rw [getD_eq_getElem _ _ hi] at hbit
    simpa using hbit.symm
  rw [hsplit,mem_append,mem_append] at hmem
  rcases hmem with hmem | hmem | hmem
  · exact Bool.noConfusion (hconfined.before _ hmem)
  · exact Bool.noConfusion (hwindow _ hmem)
  · exact Bool.noConfusion (hconfined.after _ hmem)

end AetherX.ShiftRegister
