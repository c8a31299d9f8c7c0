import Mathlib.Data.List.GetD
import Mathlib.Data.List.Nodup

/-! Base64 without padding over any alphabet of 64 different characters. -/
namespace AetherX.Base64

structure Alphabet where
  chars : List Char
  size : chars.length=64
  nodup : chars.Nodup

variable (alphabet : Alphabet)

def Alphabet.digit (v : Nat) : Char := alphabet.chars.getD v ' '

def Alphabet.value (c : Char) : Option Nat :=
  if c∈alphabet.chars then some (alphabet.chars.idxOf c) else none

def encode : List UInt8 → List Char
  | [] => []
  | [x] => [alphabet.digit (x.toNat/4),alphabet.digit (x.toNat%4*16)]
  | [x,y] => [alphabet.digit (x.toNat/4),alphabet.digit (x.toNat%4*16+y.toNat/16),
      alphabet.digit (y.toNat%16*4)]
  | x::y::z::rest =>
    alphabet.digit (x.toNat/4)::alphabet.digit (x.toNat%4*16+y.toNat/16) ::
      alphabet.digit (y.toNat%16*4+z.toNat/64)::alphabet.digit (z.toNat%64) ::
      encode rest

/- A last group may leave no bits over. -/
def decode : List Char → Option (List UInt8)
  | [] => some []
  | [_] => none
  | [a,b] => do
    let va ← alphabet.value a
    let vb ← alphabet.value b
    if vb%16=0 then some [UInt8.ofNat (va*4+vb/16)] else none
  | [a,b,c] => do
    let va ← alphabet.value a
    let vb ← alphabet.value b
    let vc ← alphabet.value c
    if vc%4=0 then
      some [UInt8.ofNat (va*4+vb/16),UInt8.ofNat (vb%16*16+vc/4)]
    else none
  | a::b::c::d::rest => do
    let va ← alphabet.value a
    let vb ← alphabet.value b
    let vc ← alphabet.value c
    let vd ← alphabet.value d
    let bytes ← decode rest
    some (UInt8.ofNat (va*4+vb/16)::UInt8.ofNat (vb%16*16+vc/4) ::
      UInt8.ofNat (vc%4*64+vd)::bytes)

theorem digit_eq {v : Nat} (h : v < alphabet.chars.length) :
    alphabet.digit v=alphabet.chars[v] := by
  rw [Alphabet.digit,List.getD_eq_getElem _ _ h]

theorem digit_mem {v : Nat} (h : v<64) : alphabet.digit v∈alphabet.chars := by
  rw [← alphabet.size] at h
  rw [digit_eq alphabet h]
  exact List.getElem_mem _

theorem value_digit {v : Nat} (h : v<64) : alphabet.value (alphabet.digit v)=some v := by
  have hmem := digit_mem alphabet h
  rw [← alphabet.size] at h
  rw [Alphabet.value,if_pos hmem,digit_eq alphabet h,alphabet.nodup.idxOf_getElem]

theorem ofNat_eq {n : Nat} {x : UInt8} (h : n=x.toNat) : UInt8.ofNat n=x := by
  rw [h,UInt8.ofNat_toNat]

theorem decode_encode_bytes (bytes : List UInt8) :
    decode alphabet (encode alphabet bytes)=some bytes := by
  fun_induction encode alphabet bytes with
  | case1 => rfl
  | case2 x =>
    have hx := x.toNat_lt
    simp (disch := omega) only [decode,value_digit,Option.bind_eq_bind,Option.bind_some]
    rw [if_pos (by omega),ofNat_eq (x := x) (by omega)]
  | case3 x y =>
    have hx := x.toNat_lt
    have hy := y.toNat_lt
    simp (disch := omega) only [decode,value_digit,Option.bind_eq_bind,Option.bind_some]
    rw [if_pos (by omega),ofNat_eq (x := x) (by omega),ofNat_eq (x := y) (by omega)]
  | case4 x y z rest ih =>
    have hx := x.toNat_lt
    have hy := y.toNat_lt
    have hz := z.toNat_lt
    simp (disch := omega) only [decode,value_digit,ih,Option.bind_eq_bind,Option.bind_some]
    rw [ofNat_eq (x := x) (by omega),ofNat_eq (x := y) (by omega),ofNat_eq (x := z) (by omega)]

theorem encode_subset (bytes : List UInt8) : encode alphabet bytes ⊆ alphabet.chars := by
  fun_induction encode alphabet bytes with
  | case1 => exact List.nil_subset _
  | case2 x =>
    have hx := x.toNat_lt
    simp only [List.cons_subset,List.nil_subset,and_true]
    exact ⟨digit_mem alphabet (by omega),digit_mem alphabet (by omega)⟩
  | case3 x y =>
    have hx := x.toNat_lt
    have hy := y.toNat_lt
    simp only [List.cons_subset,List.nil_subset,and_true]
    exact ⟨digit_mem alphabet (by omega),digit_mem alphabet (by omega),
      digit_mem alphabet (by omega)⟩
  | case4 x y z rest ih =>
    have hx := x.toNat_lt
    have hy := y.toNat_lt
    have hz := z.toNat_lt
    simp only [List.cons_subset]
    exact ⟨digit_mem alphabet (by omega),digit_mem alphabet (by omega),
      digit_mem alphabet (by omega),digit_mem alphabet (by omega),ih⟩

end AetherX.Base64
