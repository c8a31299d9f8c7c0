import AetherX.Base32
import AetherX.ByteText
import AetherX.Telemetry

/-! Data in the names of DNS queries: the tunnel cuts it into chunks of 150 bytes and sends each
as the first label of a name, in base32 and after its number. -/
namespace AetherX.DnsTunnel
open BitString ByteText List
open Telemetry (chunks flatten_chunks)

abbrev Bytes := List UInt8

structure DohResolver where
  url : String
  priority : UInt8
  reachable : Bool

structure DoHTunnel where
  resolvers : List DohResolver
  activeResolver : Option String
  bytesTunneled : UInt64
  queryCount : UInt64

def alphabet : Base32.Alphabet where
  chars := text "abcdefghijklmnopqrstuvwxyz234567"
  size := by decide
  nodup := by decide

structure Encoder where
  out : Text
  buffer : UInt32
  bitsLeft : Nat

/- The loop that takes whole groups of five bits out of the buffer. -/
def drain (out : Text) (buffer : UInt32) : Nat → Encoder
  | bitsLeft+5 =>
    let idx := (buffer >>> UInt32.ofNat bitsLeft) &&& 0x1F
    drain (out++[alphabet.digit idx.toNat]) buffer bitsLeft
  | bitsLeft => ⟨out,buffer,bitsLeft⟩

/- Bits that were taken stay in the buffer until they are shifted out of it. -/
def Encoder.push (e : Encoder) (b : UInt8) : Encoder :=
  drain e.out ((e.buffer <<< 8) ||| b.toUInt32) (e.bitsLeft+8)

def Encoder.finish (e : Encoder) : Text :=
  if e.bitsLeft > 0 then
    let idx := (e.buffer <<< UInt32.ofNat (5-e.bitsLeft)) &&& 0x1F
    e.out++[alphabet.digit idx.toNat]
  else e.out

def base32Encode (data : Bytes) : Text := (data.foldl Encoder.push ⟨[],0,0⟩).finish

/- What a state of the encoder stands for: its output, and the bits that it holds back. -/
def Encoder.pending (e : Encoder) : List Bool := bits e.bitsLeft e.buffer.toNat

def Encoder.text (e : Encoder) (rest : List Bool) : Text :=
  e.out++(Base32.groups 5 (e.pending++rest)).map alphabet.digit

theorem toNat_and_31 (x : UInt32) : (x &&& 0x1F).toNat=x.toNat%2^5 := by
  rw [UInt32.toNat_and]
  exact Nat.and_two_pow_sub_one_eq_mod _ 5

theorem toNat_shift {n : Nat} (hn : n<32) : (UInt32.ofNat n).toNat%32=n := by
  rw [UInt32.toNat_ofNat',Nat.mod_mod_of_dvd _ (by decide),Nat.mod_eq_of_lt hn]

/-- Taking groups out of the buffer changes where they stand, not what the encoder stands for. -/
theorem drain_text (out : Text) (buffer : UInt32) (n : Nat) (hn : n≤32) (rest : List Bool) :
    (drain out buffer n).text rest=(Encoder.mk out buffer n).text rest := by
  fun_induction drain out buffer n with
  | case1 out n idx ih =>
    have hsplit : bits (n+5) buffer.toNat =
        bits 5 (buffer.toNat/2^n)++bits n buffer.toNat := by
      rw [Nat.add_comm,bits_add]
    have hidx : idx.toNat=buffer.toNat/2^n%2^5 := by
      rw [toNat_and_31,UInt32.toNat_shiftRight,toNat_shift (by omega),Nat.shiftRight_eq_div_pow]
    rw [ih (by omega)]
    simp only [Encoder.text,Encoder.pending,hsplit,append_assoc]
    rw [Base32.groups_append (by decide) (length_bits 5 _),ofBits_bits,hidx,map_cons,
      singleton_append]
  | case2 out n _ => rfl

theorem drain_bitsLeft (out : Text) (buffer : UInt32) (n : Nat) :
    (drain out buffer n).bitsLeft<5 := by
  fun_induction drain out buffer n with
  | case1 out n idx ih => exact ih
  | case2 out n hn =>
    by_contra hge
    exact hn (n-5) (by simp only at hge; omega)

theorem bits_pushed {m : Nat} (hm : m≤24) (buffer : UInt32) (b : UInt8) :
    bits (m+8) ((buffer <<< 8) ||| b.toUInt32).toNat =
      bits m buffer.toNat++bits 8 b.toNat := by
  have hb := b.toNat_lt
  have hshift : (buffer <<< 8).toNat=(buffer.toNat%2^24) <<< 8 := by
    have height : (8 : UInt32).toNat%32=8 := rfl
    rw [UInt32.toNat_shiftLeft,height,Nat.shiftLeft_eq,Nat.shiftLeft_eq]
    omega
  have hvalue : ((buffer <<< 8) ||| b.toUInt32).toNat =
      buffer.toNat%2^24*2^8+b.toNat := by
    rw [UInt32.toNat_or,hshift,UInt8.toNat_toUInt32,← Nat.shiftLeft_add_eq_or_of_lt hb,
      Nat.shiftLeft_eq]
  have hhigh : (buffer.toNat%2^24*2^8+b.toNat)/2^8=buffer.toNat%2^24 := by
    omega
  have hlow : (buffer.toNat%2^24*2^8+b.toNat)%2^8=b.toNat := by
    omega
  rw [hvalue,bits_add,hhigh,bits_mod hm,← bits_mod (Nat.le_refl 8),hlow]

/-- A byte that is pushed comes after the bits that were held back. -/
theorem push_text (e : Encoder) (he : e.bitsLeft<5) (b : UInt8) (rest : List Bool) :
    (e.push b).text rest=e.text (bits 8 b.toNat++rest) := by
  rw [Encoder.push,drain_text _ _ _ (by omega)]
  simp only [Encoder.text,Encoder.pending]
  rw [bits_pushed (by omega),append_assoc]

theorem finish_text (e : Encoder) (he : e.bitsLeft<5) : e.finish=e.text [] := by
  rw [Encoder.finish,Encoder.text,Encoder.pending,append_nil]
  by_cases hleft : e.bitsLeft > 0
  · have hne : bits e.bitsLeft e.buffer.toNat≠[] := by
      rw [ne_eq,← length_eq_zero_iff,length_bits]
      omega
    have hfilled : bits e.bitsLeft e.buffer.toNat++replicate (5-e.bitsLeft) false =
        bits 5 (e.buffer.toNat*2^(5-e.bitsLeft)) := by
      rw [← bits_mul_two_pow,Nat.add_sub_cancel' (by omega)]
    have hidx : ((e.buffer <<< UInt32.ofNat (5-e.bitsLeft)) &&& 0x1F).toNat =
        e.buffer.toNat*2^(5-e.bitsLeft)%2^5 := by
      rw [toNat_and_31,UInt32.toNat_shiftLeft,toNat_shift (by omega),Nat.shiftLeft_eq,
        Nat.mod_mod_of_dvd _ (by decide)]
    rw [if_pos hleft,Base32.groups_short hne (by rwa [length_bits]),length_bits,hfilled,
      ofBits_bits,← hidx]
    rfl
  · have hzero : e.bitsLeft=0 := by omega
    rw [if_neg hleft,hzero]
    simp [bits,Base32.groups]

theorem foldl_push_text (data : Bytes) (e : Encoder) (he : e.bitsLeft<5) :
    (data.foldl Encoder.push e).finish=e.text (stream data) := by
  induction data generalizing e with
  | nil => exact finish_text e he
  | cons b data ih =>
    have hpushed : (e.push b).bitsLeft<5 := by
      rw [Encoder.push]
      exact drain_bitsLeft _ _ _
    rw [foldl_cons,ih _ hpushed,push_text e he,stream_cons]

/-- The loop over the shift register writes base32. -/
theorem base32Encode_eq (data : Bytes) : base32Encode data=Base32.encode alphabet data :=
  foldl_push_text data ⟨[],0,0⟩ (by decide)

namespace DoHTunnel
def bestResolver (t : DoHTunnel) : Option DohResolver :=
  ((t.resolvers.filter (·.reachable)).mergeSort fun a b => a.priority ≤ b.priority).head?

def queryName (i : Nat) (chunk : Bytes) : Text :=
  decimal i++ch '-' :: (base32Encode chunk++ch '.' :: text "tunnel.aether-x.example")

def tunnelData (t : DoHTunnel) (data : Bytes) : DoHTunnel × List Text :=
  let resolverUrl := (t.bestResolver.map (·.url)).getD "https://dns.google/dns-query"
  ({ t with
      activeResolver := some resolverUrl
      bytesTunneled := t.bytesTunneled+UInt64.ofNat data.length
      queryCount := t.queryCount+1 },
    (chunks 150 data).zipIdx.map fun (chunk, i) => queryName i chunk)

end DoHTunnel

open DoHTunnel (queryName)

/- How the other end reads a name: what stands before the first hyphen is the number, and from
   there to the first dot stands the payload. -/
def chunkNumber (name : Text) : Option Nat := do
  let (number, _) ← cut (ch '-') name
  parseDecimal number

def payload (name : Text) : Option Bytes := do
  let (_, rest) ← cut (ch '-') name
  let (label, _) ← cut (ch '.') rest
  Base32.decode alphabet label

theorem notMem_decimal {c : UInt8} (hc : isDigit c=false) (i : Nat) : c∉decimal i := by
  intro h
  rw [isDigit_of_mem_decimal h] at hc
  cases hc

theorem hyphen_notMem_decimal (i : Nat) : ch '-' ∉ decimal i := notMem_decimal (by decide) i

theorem dot_notMem_base32 (chunk : Bytes) : ch '.' ∉ base32Encode chunk := by
  intro h
  rw [base32Encode_eq] at h
  have hmem := Base32.encode_subset alphabet chunk h
  revert hmem
  decide

theorem chunkNumber_queryName (i : Nat) (chunk : Bytes) :
    chunkNumber (queryName i chunk)=some i := by
  simp only [chunkNumber,queryName,cut_append (hyphen_notMem_decimal i),Option.bind_eq_bind,
    Option.bind_some,parseDecimal_decimal]

theorem payload_queryName (i : Nat) (chunk : Bytes) : payload (queryName i chunk)=some chunk := by
  simp only [payload,queryName,cut_append (hyphen_notMem_decimal i),
    cut_append (dot_notMem_base32 chunk),Option.bind_eq_bind,Option.bind_some]
  rw [base32Encode_eq,Base32.decode_encode_text]

theorem mapM_payload (pieces : List Bytes) (first : Nat) :
    ((pieces.zipIdx first).map fun (chunk, i) => queryName i chunk).mapM payload=some pieces := by
  induction pieces generalizing first with
  | nil => rfl
  | cons chunk pieces ih =>
    rw [zipIdx_cons,map_cons,mapM_cons,payload_queryName,ih]
    rfl

/-- The names carry the numbers of their chunks in order, and what they carry is the data; its
encoding takes eight fifths of its length, rounded up, in characters of the alphabet. -/
theorem tunnelData_roundtrip (t : DoHTunnel) (data : Bytes) :
    (t.tunnelData data).2.map chunkNumber =
        (range (t.tunnelData data).2.length).map some ∧
      ((t.tunnelData data).2.mapM payload).map flatten=some data ∧
      ∀ bytes, (base32Encode bytes).length=(8*bytes.length+4)/5 ∧
        base32Encode bytes ⊆ text "abcdefghijklmnopqrstuvwxyz234567" := by
  refine ⟨?_,?_,fun bytes => ?_⟩
  · have hnumber : chunkNumber ∘ (fun (chunk, i) => queryName i chunk) =
        some ∘ (Prod.snd : Bytes × Nat → Nat) := by
      funext p
      exact chunkNumber_queryName p.2 p.1
    rw [DoHTunnel.tunnelData,map_map,hnumber,← map_map,zipIdx_map_snd,
      length_map,length_zipIdx,range_eq_range']
  · rw [DoHTunnel.tunnelData,mapM_payload,Option.map_some,flatten_chunks (by decide)]
  · rw [base32Encode_eq]
    exact ⟨Base32.length_encode alphabet bytes,Base32.encode_subset alphabet bytes⟩

/- Labels of at most 63 bytes, none of them empty, in a name of at most 253 bytes. -/
def ValidName (name : Text) : Prop :=
  name.length≤253 ∧ ∀ label∈name.splitOn (ch '.'), 1 ≤ label.length ∧ label.length≤63

theorem splitOn_queryName (i : Nat) (chunk : Bytes) : (queryName i chunk).splitOn (ch '.') =
    [decimal i++ch '-' :: base32Encode chunk,text "tunnel",text "aether-x",text "example"] := by
  have hlabel : ∀ c∈decimal i++ch '-' :: base32Encode chunk, (c == ch '.')=false := by
    intro c hc
    rw [beq_eq_false_iff_ne]
    rintro rfl
    rw [mem_append,mem_cons] at hc
    rcases hc with hc | hc | hc
    · exact notMem_decimal (by decide) i hc
    · revert hc
      decide
    · exact dot_notMem_base32 chunk hc
  have hname : queryName i chunk=(decimal i++ch '-' :: base32Encode chunk) ++
      ch '.' :: text "tunnel.aether-x.example" := by
    simp [queryName]
  rw [hname,splitOn,
    splitOnP_append_cons_of_forall_mem hlabel (ch '.') (beq_self_eq_true _)]
  rfl

theorem validName_queryName_iff (i : Nat) (chunk : Bytes) : ValidName (queryName i chunk) ↔
    (decimal i).length+1+(8*chunk.length+4)/5≤63 := by
  have hlabel : (decimal i++ch '-' :: base32Encode chunk).length =
      (decimal i).length+1+(8*chunk.length+4)/5 := by
    rw [length_append,length_cons,base32Encode_eq,Base32.length_encode]
    omega
  have hlength : (queryName i chunk).length =
      (decimal i).length+1+(8*chunk.length+4)/5+24 := by
    have hsuffix : (ch '.' :: text "tunnel.aether-x.example").length=24 := rfl
    rw [queryName,← cons_append,← append_assoc,length_append,hlabel,hsuffix]
  rw [ValidName,splitOn_queryName,forall_mem_cons,hlabel,hlength]
  constructor
  · exact fun h => h.2.1.2
  · intro h
    exact ⟨by omega,⟨by omega,h⟩,by decide⟩

theorem mem_names_iff (t : DoHTunnel) (data : Bytes) (name : Text) :
    name∈(t.tunnelData data).2 ↔ ∃ i<(data.length+150-1)/150,
      queryName i ((data.drop (150*i)).take 150)=name := by
  have hchunk : ∀ i chunk, (chunks 150 data)[i]? = some chunk ↔
      i<(data.length+150-1)/150 ∧ (data.drop (150*i)).take 150=chunk := by
    intro i chunk
    rw [chunks,getElem?_map,Option.map_eq_some_iff]
    simp [getElem?_eq_some_iff]
  rw [DoHTunnel.tunnelData,mem_map]
  constructor
  · rintro ⟨⟨chunk,i⟩,hmem,rfl⟩
    rw [mem_zipIdx_iff_getElem?,hchunk] at hmem
    exact ⟨i,hmem.1,by rw [hmem.2]⟩
  · rintro ⟨i,hi,rfl⟩
    exact ⟨(_, i),mem_zipIdx_iff_getElem?.mpr ((hchunk i _).mpr ⟨hi,rfl⟩),rfl⟩

/-- The names of a message are valid exactly when it has at most 38 bytes. -/
theorem validNames_iff (t : DoHTunnel) (data : Bytes) :
    (∀ name∈(t.tunnelData data).2, ValidName name) ↔ data.length≤38 := by
  have hzero : (decimal 0).length=1 := rfl
  constructor
  · intro h
    by_contra hlong
    have hfirst := h _ ((mem_names_iff t data _).mpr ⟨0,by omega,rfl⟩)
    rw [validName_queryName_iff,hzero,length_take,length_drop] at hfirst
    omega
  · intro hshort name hname
    obtain ⟨i,hi,rfl⟩ := (mem_names_iff t data name).mp hname
    have hi0 : i=0 := by omega
    rw [hi0,validName_queryName_iff,hzero,length_take,length_drop]
    omega

/-- The label of 39 bytes has 65 characters. -/
theorem long_label_invalid : ¬ ∀ (t : DoHTunnel) (data : Bytes),
    ∀ name∈(t.tunnelData data).2, ValidName name := by
  intro h
  have hvalid : ValidName (queryName 0 (replicate 39 0)) := by
    refine h ⟨[],none,0,0⟩ (replicate 39 0) _ ?_
    rw [mem_names_iff]
    exact ⟨0,by decide,rfl⟩
  rw [validName_queryName_iff] at hvalid
  revert hvalid
  decide

end AetherX.DnsTunnel
