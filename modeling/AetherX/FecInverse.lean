import Mathlib
import AetherX.Fec

/-! Inversion of byte matrices, with the assertion that no division is by zero, over the bytes as the
polynomials modulo 0x11d. -/
namespace AetherX.FecInverse
open Gf LinearSystem Polynomial
variable {n : Nat}

inductive Panic where
  | divisionByZero

/- gf::inv with the assertion of gf::div. -/
def inverse (p : Gf256) : Except Panic Gf256 :=
  if h : p.byte=0 then .error .divisionByZero else .ok ⟨Gf.inv p.byte h⟩

def reduceColumn (w : Work n Gf256) (col : Fin n) : OptionT (Except Panic) (Work n Gf256) := do
  let pivot ← OptionT.mk (.ok (findPivot w.a col))
  let a := swapRows col pivot w.a
  let inv := swapRows col pivot w.inv
  let p ← OptionT.lift (inverse (a col col))
  let a := scaleRow col p a
  let inv := scaleRow col p inv
  let factor := fun r => a r col
  return ⟨clearRows col factor a,clearRows col factor inv⟩

def toMatrix (a : Fin n → Fin n → UInt8) : Square n Gf256 := fun i j => ⟨a i j⟩

def invertMatrix (a : Fin n → Fin n → UInt8) : Except Panic (Option (Fin n → Fin n → UInt8)) :=
  ((List.finRange n).foldlM reduceColumn ⟨toMatrix a,1⟩).run.map (Option.map fun w i j => (w.inv i j).byte)

theorem inverse_of_ne_zero {p : Gf256} (hp : p≠0) : inverse p = .ok p⁻¹ := by
  have hbyte : p.byte≠0 := fun h => hp (Gf256.ext h)
  rw [inverse,dif_neg hbyte,← inv_mk hbyte]

theorem reduceColumn_eq (w : Work n Gf256) (col : Fin n) :
    reduceColumn w col = OptionT.mk (.ok (LinearSystem.reduceColumn w col)) := by
  cases hf : findPivot w.a col with
  | none =>
    rw [reduceColumn,LinearSystem.reduceColumn,hf]
    rfl
  | some pivot =>
    rw [reduceColumn,LinearSystem.reduceColumn,hf]
    change (OptionT.lift (inverse _) >>= _)=_
    rw [inverse_of_ne_zero (pivot_ne_zero hf).2]
    rfl

theorem invertMatrix_eq (a : Fin n → Fin n → UInt8) : invertMatrix a = .ok (Fec.invertMatrix a) := by
  have hfold : ∀ (cols : List (Fin n)) (w : Work n Gf256),
      cols.foldlM reduceColumn w = OptionT.mk (.ok (cols.foldlM LinearSystem.reduceColumn w)) := by
    intro cols
    induction cols with
    | nil => exact fun w => rfl
    | cons col cols ih =>
      intro w
      rw [List.foldlM_cons,List.foldlM_cons,reduceColumn_eq]
      cases LinearSystem.reduceColumn w col with
      | none => rfl
      | some w' => exact ih w'
  rw [invertMatrix,hfold]
  exact congrArg Except.ok
    (Option.map_map (fun (b : Square n Gf256) i j => (b i j).byte) Work.inv _).symm

theorem toMatrix_mul_of_invertMatrix {a b : Fin n → Fin n → UInt8} (h : Fec.invertMatrix a=some b) :
    toMatrix b*toMatrix a=1 := by
  obtain ⟨m,hm,rfl⟩ := Option.map_eq_some_iff.mp h
  apply Matrix.mulVec_injective
  funext v
  rw [← Matrix.mulVec_mulVec,Matrix.one_mulVec]
  exact invert_eq_some hm v

noncomputable def modulus : (ZMod 2)[X] := X^8+X^4+X^3+X^2+1

theorem two_mul_mk (b : UInt8) : (⟨2⟩*⟨b⟩ : Gf256)=⟨double b⟩ := by
  have hlog : log 2=1 := log_power (i := 1) (by decide)
  exact Gf256.ext ((mul_eq_double (by decide) b).trans (by rw [hlog]; rfl))

theorem two_pow (i : Nat) : (⟨2⟩^i : Gf256)=⟨power i⟩ := by
  induction i with
  | zero => rfl
  | succ i ih => rw [pow_succ',ih,two_mul_mk,power,power,Function.iterate_succ_apply']

/-- A byte is the polynomial of its bits, at 2. -/
theorem byte_eq_sum (b : UInt8) : (⟨b⟩ : Gf256) = ∑ i : Fin 8, if b.toNat.testBit i then ⟨2⟩^(i : Nat) else 0 := by
  have hterm : ∀ i : Fin 8, (if b.toNat.testBit i then ⟨2⟩^(i : Nat) else 0 : Gf256) =
      ⟨if b.toNat.testBit i then power i else 0⟩ := by
    intro i
    split_ifs
    · exact two_pow i
    · rfl
  have hall : ∀ n : Fin 256, (⟨UInt8.ofNat n⟩ : Gf256) =
      ∑ i : Fin 8, ⟨if (n : Nat).testBit i then power i else 0⟩ := by decide +kernel
  have hb := hall ⟨b.toNat,b.toNat_lt⟩
  rw [UInt8.ofNat_toNat] at hb
  simp only [hterm]
  exact hb

theorem modulus_monic : modulus.Monic := by
  unfold modulus
  monicity!

theorem natDegree_modulus : modulus.natDegree=8 := by
  unfold modulus
  compute_degree!

instance : CharP Gf256 2 := CharTwo.of_one_ne_zero_of_two_eq_zero one_ne_zero rfl

theorem eval_modulus : modulus.eval₂ (ZMod.castHom (dvd_refl 2) Gf256) ⟨2⟩=0 := by
  simp only [modulus,eval₂_add,eval₂_pow,eval₂_X,eval₂_one,two_pow]
  exact Gf256.ext (by decide)

noncomputable def evalTwo : AdjoinRoot modulus →+* Gf256 := AdjoinRoot.lift _ ⟨2⟩ eval_modulus

theorem evalTwo_bits (b : UInt8) :
    evalTwo (∑ i : Fin 8, if b.toNat.testBit i then AdjoinRoot.root modulus^(i : Nat) else 0)=⟨b⟩ := by
  rw [byte_eq_sum b,map_sum]
  refine Finset.sum_congr rfl fun i _ => ?_
  split_ifs
  · rw [map_pow,evalTwo,AdjoinRoot.lift_root]
  · exact map_zero _

theorem card_adjoinRoot : Nat.card (AdjoinRoot modulus)=256 := by
  have hbasis := AdjoinRoot.powerBasis' modulus_monic
  have hfinite := hbasis.finite
  rw [Module.natCard_eq_pow_finrank (K := ZMod 2),(AdjoinRoot.powerBasis' modulus_monic).finrank,
    AdjoinRoot.powerBasis'_dim,natDegree_modulus,Nat.card_zmod]
  rfl

/- There are no more polynomials modulo 0x11d than bytes. -/
theorem evalTwo_bijective : Function.Bijective evalTwo := by
  have hfinite : Finite (AdjoinRoot modulus) := Nat.finite_of_card_ne_zero (by rw [card_adjoinRoot]; decide)
  have hbytes : Nat.card Gf256=256 :=
    Nat.card_eq_of_equiv_fin ⟨fun x => x.byte.toFin,fun n => ⟨⟨⟨n⟩⟩⟩,fun _ => rfl,fun _ => rfl⟩
  refine Function.Surjective.bijective_of_nat_card_le (fun x => ⟨_,evalTwo_bits x.byte⟩) ?_
  rw [card_adjoinRoot,hbytes]

noncomputable def polynomials : Gf256 ≃+* AdjoinRoot modulus :=
  (RingEquiv.ofBijective evalTwo evalTwo_bijective).symm

/-- Bytes with gf::add, gf::mul and gf::inv are the polynomials modulo 0x11d, a field, and a matrix of
bytes is inverted exactly if it has an inverse there; no division is by zero. -/
theorem invert_matrix_exact : ∃ f : UInt8 ≃ AdjoinRoot modulus, IsField (AdjoinRoot modulus) ∧
    (∀ b, f b = ∑ i : Fin 8, if b.toNat.testBit i then AdjoinRoot.root modulus^(i : Nat) else 0) ∧
    (∀ a b, f (add a b)=f a+f b ∧ f (mul a b)=f a*f b) ∧ (∀ a ha, f (inv a ha)*f a=1) ∧
    ∀ n (a : Fin n → Fin n → UInt8),
      (IsUnit (Matrix.of fun i j => f (a i j)) →
        ∃ b, invertMatrix a = .ok (some b) ∧ toMatrix b*toMatrix a=1) ∧
      (¬ IsUnit (Matrix.of fun i j => f (a i j)) → invertMatrix a = .ok none) := by
  let bytes : UInt8 ≃ Gf256 := ⟨Gf256.mk,Gf256.byte,fun _ => rfl,fun _ => rfl⟩
  refine ⟨bytes.trans polynomials.toEquiv,polynomials.symm.toMulEquiv.isField (Field.toIsField Gf256),
    ?_,?_,?_,?_⟩
  · intro b
    exact (Equiv.symm_apply_eq (Equiv.ofBijective evalTwo evalTwo_bijective)).mpr (evalTwo_bits b).symm
  · exact fun a b => ⟨map_add polynomials ⟨a⟩ ⟨b⟩,map_mul polynomials ⟨a⟩ ⟨b⟩⟩
  · intro a ha
    have hne : (⟨a⟩ : Gf256)≠0 := fun h => ha (congrArg Gf256.byte h)
    have hone := congrArg polynomials (inv_mul_cancel₀ hne)
    rw [inv_mk ha,map_mul,map_one] at hone
    exact hone
  · intro n a
    have hunit : IsUnit (Matrix.of fun i j => polynomials ⟨a i j⟩) ↔ IsUnit (toMatrix a) :=
      MulEquiv.isUnit_map polynomials.mapMatrix
    rw [invertMatrix_eq]
    refine ⟨fun h => ?_,fun h => ?_⟩
    · have hkernel := Matrix.mulVec_injective_of_isUnit (hunit.mp h)
      obtain ⟨m,hm,-⟩ := invert_spec (toMatrix a) fun v hv => hkernel (hv.trans (Matrix.mulVec_zero _).symm)
      have hsome : Fec.invertMatrix a=some fun i j => (m i j).byte := Option.map_eq_some_iff.mpr ⟨m,hm,rfl⟩
      exact ⟨_,congrArg Except.ok hsome,toMatrix_mul_of_invertMatrix hsome⟩
    · cases hb : Fec.invertMatrix a with
      | none => rfl
      | some b =>
        exact absurd (hunit.mpr (.of_mul_eq_one_right _ (toMatrix_mul_of_invertMatrix hb))) h

end AetherX.FecInverse
