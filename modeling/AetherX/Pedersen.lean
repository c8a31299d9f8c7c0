import Mathlib.Algebra.Module.Basic
import Mathlib.Data.ZMod.Basic

/-! Pedersen commitments over the integers modulo q and range proofs about them, with the
properties of both that a protocol relies on. -/
namespace AetherX.Pedersen
variable {q : Nat} {G : Type*} [AddCommGroup G] [Module (ZMod q) G]

structure Generators (q : Nat) (G : Type*) where
  base : G
  blindingBase : G

def Generators.commit (gens : Generators q G) (value blinding : ZMod q) : G :=
  value • gens.base+blinding • gens.blindingBase

/-- Taking a multiple of the base away takes it from the committed value. -/
theorem Generators.commit_sub_smul (gens : Generators q G) (value blinding shift : ZMod q) :
    gens.commit value blinding-shift • gens.base=gens.commit (value-shift) blinding := by
  rw [commit,commit,sub_smul,add_sub_right_comm]

def Generators.Binding (gens : Generators q G) : Prop :=
  ∀ value blinding value' blinding',
    gens.commit value blinding=gens.commit value' blinding' → value=value'

/-- A shifted commitment binds numbers below the order as numbers: nothing wraps around. -/
theorem Generators.Binding.eq_add {gens : Generators q G} (h : gens.Binding) {m n k : Nat}
    {blinding blinding' : ZMod q} (hm : m < q) (hn : n+k < q)
    (heq : gens.commit ((m : ZMod q)-(k : ZMod q)) blinding=gens.commit (n : ZMod q) blinding') :
    m=n+k := by
  have hvalue : (m : ZMod q)=((n+k : Nat) : ZMod q) := by
    rw [Nat.cast_add]
    exact sub_eq_iff_eq_add.mp (h _ _ _ _ heq)
  have hcast := (ZMod.natCast_eq_natCast_iff' m (n+k) q).mp hvalue
  rwa [Nat.mod_eq_of_lt hm,Nat.mod_eq_of_lt hn] at hcast

structure Encoding (G C : Type*) where
  compress : G → C
  decompress : C → Option G

def Encoding.RoundTrip {G C : Type*} (encoding : Encoding G C) : Prop :=
  ∀ point, encoding.decompress (encoding.compress point)=some point

/- Proofs that an encoded commitment holds a 64-bit value. The transcript is what a proof is bound
   to; the prover's randomness is part of the function. -/
structure RangeProofs (q : Nat) (T C P : Type*) where
  proveSingle : T → UInt64 → ZMod q → Option (P × C)
  verifySingle : P → T → C → Bool

section
variable {T C P : Type*} (proofs : RangeProofs q T C P) (gens : Generators q G)
  (encoding : Encoding G C)

def RangeProofs.Complete : Prop :=
  ∀ t (value : UInt64) blinding, ∃ p,
    proofs.proveSingle t value blinding =
      some (p, encoding.compress (gens.commit (value.toNat : ZMod q) blinding)) ∧
    proofs.verifySingle p t (encoding.compress (gens.commit (value.toNat : ZMod q) blinding))=true

def RangeProofs.Sound : Prop :=
  ∀ p t point, proofs.verifySingle p t (encoding.compress point)=true →
    ∃ (value : UInt64) (blinding : ZMod q), point=gens.commit (value.toNat : ZMod q) blinding
end

end AetherX.Pedersen
