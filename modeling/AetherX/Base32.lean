import Mathlib.Data.List.GetD
import Mathlib.Data.List.Nodup
import AetherX.BitString

/-! Base32 without padding over any alphabet of 32 different characters: the bits of a byte string
in groups of five, the last group filled up with zeros. -/
namespace AetherX.Base32
open BitString List

section
/- The numbers that the groups of `k` bits spell. -/
def groups (k : Nat) : List Bool → List Nat
  | [] => []
  | b::bs => ofBits ((b::bs++List.replicate k false).take k)::groups k (bs.drop (k-1))
termination_by bs => bs.length
decreasing_by
  rw [length_drop,length_cons]
  omega

variable {k : Nat}

theorem groups_append (hk : 0 < k) {g : List Bool} (hg : g.length=k) (rest : List Bool) :
    groups k (g++rest) = ofBits g::groups k rest := by
  cases g with
  | nil => exact absurd hg (Nat.ne_of_lt hk)
  | cons b bs =>
    rw [length_cons] at hg
    have htake : (b::(bs++rest)++List.replicate k false).take k=b::bs := by
      rw [← cons_append,append_assoc]
      exact take_left' hg
    have hdrop : (bs++rest).drop (k-1)=rest := drop_left' (by omega)
    rw [cons_append,groups,htake,hdrop]

theorem groups_short {g : List Bool} (hne : g≠[]) (hg : g.length < k) :
    groups k g=[ofBits (g++List.replicate (k-g.length) false)] := by
  cases g with
  | nil => exact absurd rfl hne
  | cons b bs =>
    have htake : (b::bs++List.replicate k false).take k =
        b::bs++List.replicate (k-(b::bs).length) false := by
      rw [take_append,take_of_length_le (by omega),take_replicate,
        Nat.min_eq_left (by omega)]
    have hdrop : bs.drop (k-1)=[] := by
      rw [length_cons] at hg
      exact drop_eq_nil_of_le (by omega)
    rw [groups,htake,hdrop,groups]

theorem length_groups (hk : 0 < k) (bs : List Bool) :
    (groups k bs).length=(bs.length+k-1)/k := by
  fun_induction groups k bs with
  | case1 => rw [length_nil,length_nil,Nat.div_eq_of_lt (by omega)]
  | case2 b bs ih =>
    rw [length_cons,ih,length_drop,length_cons]
    by_cases hle : k-1 ≤ bs.length
    · have hsum : bs.length+1+k-1=bs.length-(k-1)+k-1+k := by omega
      rw [hsum,Nat.add_div_right _ hk]
    · have hzero : bs.length-(k-1)=0 := by omega
      have hone : bs.length+1+k-1=bs.length+k := by omega
      rw [hzero,hone,Nat.add_div_right _ hk,Nat.div_eq_of_lt (by omega),
        Nat.div_eq_of_lt (by omega)]

theorem groups_lt (bs : List Bool) : ∀ v∈groups k bs, v<2^k := by
  fun_induction groups k bs with
  | case1 => simp
  | case2 b bs ih =>
    rw [forall_mem_cons]
    refine ⟨Nat.lt_of_lt_of_le (ofBits_lt _) ?_,ih⟩
    exact Nat.pow_le_pow_right (by decide) (length_take_le _ _)

/-- The groups hold the bits and fewer zeros than a group has bits. -/
theorem ungroup_groups (hk : 0 < k) (bs : List Bool) :
    ∃ filling < k, (groups k bs).flatMap (bits k)=bs++List.replicate filling false := by
  fun_induction groups k bs with
  | case1 => exact ⟨0,hk,rfl⟩
  | case2 b bs ih =>
    obtain ⟨filling,hfilling,hrest⟩ := ih
    have hgroup : ((b::bs++List.replicate k false).take k).length=k := by
      rw [length_take,length_append,length_replicate]
      omega
    rw [flatMap_cons,bits_ofBits hgroup]
    by_cases hle : k-1 ≤ bs.length
    · have htake : (b::bs++List.replicate k false).take k=b::bs.take (k-1) := by
        have hsucc : k=k-1+1 := by omega
        rw [cons_append,hsucc,take_succ_cons,← hsucc,
          take_append_of_le_length hle]
      refine ⟨filling,hfilling,?_⟩
      rw [hrest,htake,cons_append,← append_assoc,take_append_drop,
        cons_append]
    · have hdrop : bs.drop (k-1)=[] := drop_eq_nil_of_le (by omega)
      refine ⟨k-(bs.length+1),by omega,?_⟩
      rw [hdrop,groups,flatMap_nil,append_nil,take_append,
        take_of_length_le (by rw [length_cons]; omega),take_replicate,
        length_cons,Nat.min_eq_left (by omega)]
end

structure Alphabet where
  chars : List UInt8
  size : chars.length=32
  nodup : chars.Nodup

variable (alphabet : Alphabet)

def Alphabet.digit (v : Nat) : UInt8 := alphabet.chars.getD v 0

def Alphabet.value (c : UInt8) : Option Nat :=
  if c∈alphabet.chars then some (alphabet.chars.idxOf c) else none

def encode (bytes : List UInt8) : List UInt8 := (groups 5 (stream bytes)).map alphabet.digit

/- The bits over must be zeros, and fewer than a character holds. -/
def decode (s : List UInt8) : Option (List UInt8) := do
  let values ← s.mapM alphabet.value
  let (bytes, spare) := wholeBytes (values.flatMap (bits 5))
  if spare.length<5 ∧ spare.all (· = false) then some bytes else none

theorem digit_mem {v : Nat} (h : v<32) : alphabet.digit v∈alphabet.chars := by
  rw [← alphabet.size] at h
  rw [Alphabet.digit,getD_eq_getElem _ _ h]
  exact getElem_mem _

theorem value_digit {v : Nat} (h : v<32) : alphabet.value (alphabet.digit v)=some v := by
  have hmem := digit_mem alphabet h
  rw [← alphabet.size] at h
  rw [Alphabet.value,if_pos hmem,Alphabet.digit,getD_eq_getElem _ _ h,
    alphabet.nodup.idxOf_getElem]

theorem mapM_value_digit {values : List Nat} (h : ∀ v∈values, v<32) :
    (values.map alphabet.digit).mapM alphabet.value=some values := by
  induction values with
  | nil => rfl
  | cons v values ih =>
    rw [forall_mem_cons] at h
    rw [map_cons,mapM_cons,value_digit alphabet h.1,ih h.2]
    rfl

theorem decode_encode_text (bytes : List UInt8) :
    decode alphabet (encode alphabet bytes)=some bytes := by
  obtain ⟨filling,hfilling,hbits⟩ := ungroup_groups (by decide : 0<5) (stream bytes)
  have hvalues : (encode alphabet bytes).mapM alphabet.value=some (groups 5 (stream bytes)) :=
    mapM_value_digit alphabet (groups_lt _)
  have hover : (List.replicate filling false).length<8 := by
    rw [length_replicate]
    omega
  rw [decode,hvalues,Option.bind_eq_bind,Option.bind_some,hbits,
    wholeBytes_stream bytes hover]
  simp [hfilling]

theorem length_encode (bytes : List UInt8) :
    (encode alphabet bytes).length=(8*bytes.length+4)/5 := by
  rw [encode,length_map,length_groups (by decide),length_stream,
    Nat.add_sub_assoc (by decide)]

theorem encode_subset (bytes : List UInt8) : encode alphabet bytes ⊆ alphabet.chars := by
  intro c hc
  obtain ⟨v,hv,rfl⟩ := mem_map.mp hc
  exact digit_mem alphabet (groups_lt _ v hv)

end AetherX.Base32
