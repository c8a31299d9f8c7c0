import Mathlib.Algebra.Field.Defs
import Mathlib.Data.UInt
import Mathlib.Data.FinEnum
import Mathlib.Dynamics.PeriodicPts.Defs

/-! The byte arithmetic of the erasure code: log and exp tables filled by repeated
doubling, and the proof that multiplication through them makes the bytes a field. -/
namespace AetherX.Gf
open List

structure Tables where
  exp : List UInt8
  log : List UInt8

/- x <<= 1, then reduction by the polynomial 0x11d. -/
def next (x : UInt16) : UInt16 :=
  let x := x <<< 1
  if x &&& 0x100≠0 then x ^^^ 0x11d else x

def fill (t : Tables × UInt16) (i : Nat) : Tables × UInt16 :=
  (⟨t.1.exp.set i t.2.toUInt8,t.1.log.set t.2.toNat (UInt8.ofNat i)⟩, next t.2)

def wrap (t : Tables) (i : Nat) : Tables :=
  { t with exp := t.exp.set i (t.exp.getD (i-255) 0) }

@[irreducible]
def tables : Tables :=
  let start : Tables := ⟨replicate 512 0,replicate 256 0⟩
  let filled := ((range 255).foldl fill (start, 1)).1
  (range' 255 257).foldl wrap filled

def exp (i : Nat) : UInt8 := tables.exp.getD i 0
def log (a : UInt8) : Nat := (tables.log.getD a.toNat 0).toNat

def add (a b : UInt8) : UInt8 := a ^^^ b

def mul (a b : UInt8) : UInt8 :=
  if a=0 ∨ b=0 then 0 else exp (log a+log b)

/- The source asserts that the divisor is not zero; here a caller has to show it. -/
def div (a b : UInt8) (_ : b≠0) : UInt8 :=
  if a=0 then 0 else exp ((255+log a-log b)%255)

def inv (a : UInt8) (ha : a≠0) : UInt8 := div 1 a ha

def double (b : UInt8) : UInt8 := b <<< 1 ^^^ (if b ≥ 128 then 0x1d else 0)

def power (i : Nat) : UInt8 := double^[i] 1

variable (b a : UInt8)

theorem next_double : next b.toUInt16=(double b).toUInt16 := by
  have h : ∀ n : Fin 256, next (UInt8.ofNat n).toUInt16=(double (UInt8.ofNat n)).toUInt16 := by
    decide +kernel
  simpa using h ⟨b.toNat,b.toNat_lt⟩

theorem double_zero : double 0=0 := by decide

theorem double_xor (b : UInt8) : double (a ^^^ b)=double a ^^^ double b := by
  have hbit : ∀ c : UInt8, c ≥ 128 ↔ c.toBitVec.msb=true := by
    intro c
    rw [ge_iff_le,UInt8.le_iff_toNat_le,BitVec.msb_eq_decide]
    simp
  have hshift : (a ^^^ b) <<< 1=a <<< 1 ^^^ b <<< 1 := by
    simp [← UInt8.toBitVec_inj,BitVec.shiftLeft_xor_distrib]
  have hmask : (if a ^^^ b ≥ 128 then (0x1d : UInt8) else 0) =
      (if a ≥ 128 then 0x1d else 0) ^^^ (if b ≥ 128 then 0x1d else 0) := by
    simp only [hbit,UInt8.toBitVec_xor,BitVec.msb_xor]
    cases a.toBitVec.msb <;> cases b.toBitVec.msb <;> rfl
  rw [double,double,double,hshift,hmask]
  ac_rfl

theorem power_add (i j : Nat) : power (i+j)=double^[i] (power j) :=
  Function.iterate_add_apply double i j 1

theorem power_period : Function.IsPeriodicPt double 255 1 := by
  rw [Function.IsPeriodicPt,Function.IsFixedPt]
  decide +kernel

/- The order of doubling divides 255 and none of its maximal divisors. -/
theorem minimalPeriod_double : Function.minimalPeriod double 1=255 := by
  have hdvd := power_period.minimalPeriod_dvd
  have hno : ∀ d∈[85,51,15], ¬ Function.minimalPeriod double 1 ∣ d := by
    intro d hd
    rw [← Function.isPeriodicPt_iff_minimalPeriod_dvd,Function.IsPeriodicPt,Function.IsFixedPt]
    revert d
    decide +kernel
  have hle := Nat.le_of_dvd (by decide) hdvd
  have hdivisors : ∀ d<256, d ∣ 255 → (∀ e∈[85,51,15], ¬ d ∣ e) → d=255 := by
    decide +kernel
  exact hdivisors _ (by omega) hdvd hno

theorem power_mod (i : Nat) : power (i%255)=power i :=
  power_period.iterate_mod_apply i

theorem power_injective {i j : Nat} (hi : i<255) (hj : j<255) (h : power i=power j) :
    i=j := by
  apply Function.iterate_injOn_Iio_minimalPeriod (f := double) (x := 1)
  · rwa [minimalPeriod_double]
  · rwa [minimalPeriod_double]
  · exact h

theorem power_ne_zero (i : Nat) : power i≠0 := by
  intro h
  have hzero : ∀ n, double^[n] 0=0 := fun n => Function.iterate_fixed double_zero n
  have hone : power (255*i)=1 := by
    rw [← power_mod,Nat.mul_mod_right]
    rfl
  have hsplit : power (254*i+i)=0 := by rw [power_add,h,hzero]
  rw [show 254*i+i=255*i by omega,hone] at hsplit
  exact absurd hsplit (by decide)

/- 255 different powers and 255 bytes other than zero. -/
theorem exists_power {a : UInt8} (ha : a≠0) : ∃ i<255, power i=a := by
  have hcard : (Finset.univ.erase (0 : UInt8)).card≤((Finset.range 255).image power).card := by
    rw [Finset.card_image_of_injOn]
    · rw [Finset.card_range,Finset.card_erase_of_mem (Finset.mem_univ _)]
      decide +kernel
    · intro i hi j hj h
      exact power_injective (Finset.mem_range.mp hi) (Finset.mem_range.mp hj) h
  have hsub : (Finset.range 255).image power ⊆ Finset.univ.erase (0 : UInt8) := by
    intro b hb
    obtain ⟨i,-,rfl⟩ := Finset.mem_image.mp hb
    exact Finset.mem_erase.mpr ⟨power_ne_zero i,Finset.mem_univ _⟩
  have hmem : a∈(Finset.range 255).image power := by
    rw [Finset.eq_of_subset_of_card_le hsub hcard]
    exact Finset.mem_erase.mpr ⟨ha,Finset.mem_univ _⟩
  simpa using hmem

/- What the first loop has written after n rounds. -/
structure Filled (n : Nat) (t : Tables × UInt16) : Prop where
  word : t.2=(power n).toUInt16
  expLength : t.1.exp.length=512
  logLength : t.1.log.length=256
  exp : ∀ j < n, t.1.exp.getD j 0=power j
  log : ∀ j < n, t.1.log.getD (power j).toNat 0=UInt8.ofNat j

theorem fill_step {n : Nat} (hn : n<255) {t : Tables × UInt16} (h : Filled n t) :
    Filled (n+1) (fill t n) where
  word := by
    rw [fill,h.word,next_double,power,power,Function.iterate_succ_apply']
  expLength := by rw [fill,length_set,h.expLength]
  logLength := by rw [fill,length_set,h.logLength]
  exp j hj := by
    simp only [fill,h.word,getD_eq_getElem?_getD,getElem?_set]
    by_cases hjn : n=j
    · subst hjn
      simp [h.expLength,show n<512 by omega]
    · rw [if_neg hjn,← getD_eq_getElem?_getD]
      exact h.exp j (by omega)
  log j hj := by
    simp only [fill,h.word,getD_eq_getElem?_getD,getElem?_set]
    by_cases hjn : n=j
    · subst hjn
      simp [h.logLength,(power n).toNat_lt]
    · have hne : (power n).toUInt16.toNat≠(power j).toNat := by
        intro he
        rw [UInt8.toNat_toUInt16,UInt8.toNat_inj] at he
        exact hjn (power_injective hn (by omega) he)
      rw [if_neg hne,← getD_eq_getElem?_getD]
      exact h.log j (by omega)

theorem fill_run (n : Nat) (hn : n≤255) : Filled n ((range n).foldl fill
    (⟨replicate 512 0,replicate 256 0⟩, 1)) := by
  induction n with
  | zero =>
    exact ⟨rfl,length_replicate,length_replicate,
      fun j hj => absurd hj (Nat.not_lt_zero j),fun j hj => absurd hj (Nat.not_lt_zero j)⟩
  | succ n ih =>
    rw [range_succ,foldl_append]
    exact fill_step (by omega) (ih (by omega))

/- The second loop repeats the first 255 entries; by then they are all powers. -/
theorem wrap_run (n : Nat) (hn : 255+n≤512) (t : Tables) (hlen : t.exp.length=512)
    (hexp : ∀ j<255, t.exp.getD j 0=power j) :
    let t' := (range' 255 n).foldl wrap t
    t'.log=t.log ∧ t'.exp.length=512 ∧ ∀ j<255+n, t'.exp.getD j 0=power j := by
  induction n with
  | zero => exact ⟨rfl,hlen,hexp⟩
  | succ n ih =>
    obtain ⟨hlog,hlen',hexp'⟩ := ih (by omega)
    rw [range'_1_concat,foldl_append]
    generalize (range' 255 n).foldl wrap t=t' at hlog hlen' hexp'
    refine ⟨hlog,by simp [wrap,hlen'],fun j hj => ?_⟩
    simp only [foldl_cons,foldl_nil,wrap,getD_eq_getElem?_getD,
      getElem?_set]
    by_cases hjn : 255+n=j
    · subst hjn
      rw [if_pos rfl,hlen',if_pos (by omega),← getD_eq_getElem?_getD,
        hexp' _ (by omega),Option.getD_some,← power_mod (255+n),Nat.add_mod_left,
        power_mod,Nat.add_sub_cancel_left]
    · rw [if_neg hjn,← getD_eq_getElem?_getD]
      exact hexp' j (by omega)

theorem tables_spec : (∀ j<512, tables.exp.getD j 0=power j) ∧
    ∀ j<255, tables.log.getD (power j).toNat 0=UInt8.ofNat j := by
  have h := fill_run 255 (le_refl _)
  obtain ⟨hlog,-,hexp⟩ := wrap_run 257 (le_refl _) _ h.expLength h.exp
  unfold tables
  refine ⟨hexp,fun j hj => ?_⟩
  rw [hlog]
  exact h.log j hj

theorem exp_eq {i : Nat} (hi : i<512) : exp i=power i := tables_spec.1 i hi

theorem log_power {i : Nat} (hi : i<255) : log (power i)=i := by
  rw [log,tables_spec.2 i hi,UInt8.toNat_ofNat',Nat.mod_eq_of_lt (by omega)]

theorem log_lt {a : UInt8} (ha : a≠0) : log a<255 := by
  obtain ⟨i,hi,rfl⟩ := exists_power ha
  rwa [log_power hi]

theorem power_log {a : UInt8} (ha : a≠0) : power (log a)=a := by
  obtain ⟨i,hi,rfl⟩ := exists_power ha
  rw [log_power hi]

theorem mul_of_ne_zero {a b : UInt8} (ha : a≠0) (hb : b≠0) :
    mul a b=power (log a+log b) := by
  have hla := log_lt ha
  have hlb := log_lt hb
  rw [mul,if_neg (by simp [ha,hb]),exp_eq (by omega)]

/- Multiplying by a doubles as often as the log of a says: this is what makes
   multiplication linear. -/
theorem mul_eq_double {a : UInt8} (ha : a≠0) (b : UInt8) : mul a b=double^[log a] b := by
  by_cases hb : b=0
  · subst hb
    rw [mul,if_pos (.inr rfl),Function.iterate_fixed double_zero]
  · rw [mul_of_ne_zero ha hb,power_add,power_log hb]

theorem double_iterate_xor (n : Nat) (a b : UInt8) :
    double^[n] (a ^^^ b)=double^[n] a ^^^ double^[n] b := by
  induction n generalizing a b with
  | zero => rfl
  | succ n ih => rw [Function.iterate_succ_apply,double_xor,ih]; rfl

theorem zero_mul' : mul 0 b=0 := by simp [mul]

theorem mul_comm' (b : UInt8) : mul a b=mul b a := by
  simp only [mul,or_comm,Nat.add_comm]

theorem mul_add' (b c : UInt8) : mul a (add b c)=add (mul a b) (mul a c) := by
  by_cases ha : a=0
  · simp [ha,zero_mul',add]
  · simp only [mul_eq_double ha,add,double_iterate_xor]

theorem mul_assoc' (b c : UInt8) : mul (mul a b) c=mul a (mul b c) := by
  by_cases ha : a=0
  · simp [ha,zero_mul']
  by_cases hc : c=0
  · simp [hc,mul]
  by_cases hb : b=0
  · simp [hb,mul]
  rw [mul_comm' (mul a b) c,mul_eq_double hc,mul_of_ne_zero ha hb,← power_add,
    mul_eq_double ha,mul_of_ne_zero hb hc,← power_add]
  congr 1
  omega

theorem one_mul' : mul 1 a=a := by
  rw [mul_eq_double (by decide),show (1 : UInt8)=power 0 from rfl,log_power (by decide)]
  rfl

theorem mul_inv' (ha : a≠0) : mul a (inv a ha)=1 := by
  have hla := log_lt ha
  have hone : log 1=0 := log_power (Nat.zero_lt_succ 254)
  have hne : (1 : UInt8)≠0 := by decide
  rw [inv,div,if_neg hne,hone,exp_eq (by omega),power_mod,mul_eq_double ha,
    ← power_add,show log a+(255+0-log a)=255 by omega]
  exact power_period

/-- A byte, read as an element of the field with 256 elements. -/
@[ext]
structure Gf256 where
  byte : UInt8
  deriving DecidableEq

instance : Zero Gf256 := ⟨⟨0⟩⟩
instance : Neg Gf256 := ⟨fun a => a⟩
instance : One Gf256 := ⟨⟨1⟩⟩
instance : Add Gf256 := ⟨fun a b => ⟨add a.byte b.byte⟩⟩
instance : Mul Gf256 := ⟨fun a b => ⟨mul a.byte b.byte⟩⟩

instance : Field Gf256 where
  sub := (· + ·)
  inv a := if h : a.byte=0 then 0 else ⟨inv a.byte h⟩
  add_assoc _ _ _ := Gf256.ext (UInt8.xor_assoc _ _ _)
  zero_add _ := Gf256.ext UInt8.zero_xor
  add_zero _ := Gf256.ext UInt8.xor_zero
  add_comm _ _ := Gf256.ext (UInt8.xor_comm _ _)
  neg_add_cancel _ := Gf256.ext UInt8.xor_self
  sub_eq_add_neg _ _ := rfl
  left_distrib _ _ _ := Gf256.ext (mul_add' _ _ _)
  right_distrib a b c := Gf256.ext (by
    change mul (add a.byte b.byte) c.byte=add (mul a.byte c.byte) (mul b.byte c.byte)
    rw [mul_comm',mul_add',mul_comm' c.byte,mul_comm' c.byte])
  zero_mul a := Gf256.ext (zero_mul' a.byte)
  mul_zero a := Gf256.ext ((mul_comm' a.byte 0).trans (zero_mul' _))
  mul_assoc _ _ _ := Gf256.ext (mul_assoc' _ _ _)
  mul_comm _ _ := Gf256.ext (mul_comm' _ _)
  one_mul a := Gf256.ext (one_mul' a.byte)
  mul_one a := Gf256.ext ((mul_comm' a.byte 1).trans (one_mul' _))
  exists_pair_ne := ⟨⟨0⟩,⟨1⟩,by decide⟩
  mul_inv_cancel a ha := by
    have hbyte : a.byte≠0 := fun h => ha (Gf256.ext h)
    rw [dif_neg hbyte]
    exact Gf256.ext (mul_inv' a.byte hbyte)
  inv_zero := dif_pos rfl
  nsmul := nsmulRec
  zsmul := zsmulRec
  nnqsmul := _
  nnqsmul_def := fun _ _ => rfl
  qsmul := _
  qsmul_def := fun _ _ => rfl

theorem sub_mk (b : UInt8) : (⟨a⟩-⟨b⟩ : Gf256)=⟨add a b⟩ := rfl

theorem inv_mk {a : UInt8} (ha : a≠0) : (⟨a⟩ : Gf256)⁻¹=⟨inv a ha⟩ := dif_neg ha

end AetherX.Gf
