import AetherX.Icmp
import AetherX.ShiftRegister

/-! What the checksum of an ICMP frame notices: any error in its data and checksum that is
confined to sixteen bits in a row. -/
namespace AetherX.Icmp
open BigEndian BitString ShiftRegister

/- The generator of the checksum, without its highest term. -/
def generator : BitVec 16 := 0x1021#16

theorem crcBit_toBitVec (crc : UInt16) :
    (crcBit crc).toBitVec=feed generator crc.toBitVec false := by
  have hmask : crc &&& 0x8000≠0 ↔ crc.toBitVec.msb=true := by
    have hand : (crc &&& 0x8000).toBitVec=crc.toBitVec &&& BitVec.twoPow 16 15 := rfl
    rw [ne_eq,← UInt16.toBitVec_inj,hand,BitVec.and_twoPow,BitVec.msb_eq_getLsbD_last]
    cases crc.toBitVec.getLsbD 15 <;> decide
  by_cases h : crc.toBitVec.msb=true
  · rw [crcBit,if_pos (hmask.mpr h),feed,h]
    rfl
  · rw [crcBit,if_neg (mt hmask.mp h),feed,Bool.eq_false_iff.mpr h]
    exact (BitVec.xor_zero).symm

theorem iterate_crcBit_toBitVec (n : Nat) (crc : UInt16) :
    (crcBit^[n] crc).toBitVec=(feed generator · false)^[n] crc.toBitVec := by
  induction n generalizing crc with
  | zero => rfl
  | succ n ih => rw [Function.iterate_succ_apply,ih,crcBit_toBitVec,Function.iterate_succ_apply]

/-- A byte that is added to the upper half of the register is fed to it bit by bit. -/
theorem crcByte_toBitVec (crc : UInt16) (b : UInt8) :
    (crcByte crc b).toBitVec=feedAll generator crc.toBitVec (bits 8 b.toNat) := by
  have htop : ∀ i, (b.toUInt16 <<< 8).toBitVec.getMsbD i=(bits 8 b.toNat).getD i false := by
    intro i
    have hshift : (b.toUInt16 <<< 8).toBitVec=b.toBitVec.setWidth 16 <<< 8 := rfl
    have hindex : 16-1-(i+8)=8-1-i := by omega
    have hrange : (i+8<16)=(i<8) := by simp only [eq_iff_iff]; omega
    have hwide : 8-1-i<16 := by omega
    rw [hshift,getD_bits,BitVec.getMsbD_shiftLeft,BitVec.getMsbD_eq_getLsbD,
      BitVec.getLsbD_setWidth,hindex,decide_eq_true hwide,Bool.true_and]
    simp only [hrange]
    rfl
  have hsum : (crc ^^^ (b.toUInt16 <<< 8)).toBitVec =
      crc.toBitVec ^^^ (b.toUInt16 <<< 8).toBitVec := rfl
  rw [crcByte,iterate_crcBit_toBitVec,hsum,← iterate_feed_xor _ _ _ _ htop,length_bits]

theorem foldl_crcByte_toBitVec (crc : UInt16) (data : Bytes) :
    (data.foldl crcByte crc).toBitVec=feedAll generator crc.toBitVec (stream data) := by
  induction data generalizing crc with
  | nil => rfl
  | cons b data ih => rw [List.foldl_cons,ih,crcByte_toBitVec,stream_cons,feedAll_append]

/-- Where the two bytes after the data are its checksum, reading them as well brings the register
to zero. -/
theorem feedAll_checked {body : Bytes} {len : Nat} (hlength : body.length=len+2)
    (h : fromBeBytes body len=crc16 (body.take len)) :
    feedAll generator 0xFFFF#16 (stream body)=0#16 := by
  have hsplit : stream body=stream (body.take len)++stream (body.drop len) := by
    rw [← stream_append,List.take_append_drop]
  have htail : (body.drop len).length=2 := by
    rw [List.length_drop]
    omega
  have hread : fromBeBytes body len=UInt16.ofNat (ofBytes (body.drop len)) := by
    rw [fromBeBytes,readAt,List.take_of_length_le (Nat.le_of_eq htail)]
  have hregister : feedAll generator 0xFFFF#16 (stream (body.take len)) =
      (fromBeBytes body len).toBitVec := by
    rw [h]
    exact (foldl_crcByte_toBitVec 0xFFFF (body.take len)).symm
  have hbits : stream (body.drop len)=bits 16 (fromBeBytes body len).toBitVec.toNat := by
    have hvalue : (fromBeBytes body len).toBitVec.toNat = ofBytes (body.drop len)%2^16 := by
      rw [hread]
      exact UInt16.toNat_ofNat'
    rw [stream_eq_bits,htail,hvalue,bits_mod (Nat.le_refl 16)]
  rw [hsplit,feedAll_append,hregister,hbits,feedAll_self (by decide)]

/- Errors in what follows the header. -/
def corrupt (frame error : Bytes) : Bytes :=
  frame.take 6++List.zipWith (· ^^^ ·) (frame.drop 6) error

/-- An error in the data and the checksum of a frame that is confined to sixteen consecutive
bits is noticed. -/
theorem burst_detected (seq : UInt16) {data error : Bytes} (hdata : data.length≤65535)
    (hlength : error.length=data.length+2) (hnonzero : ∃ b∈error, b≠0) {first : Nat}
    (hconfined : Confined first 16 (stream error)) :
    decodeIcmpPayload (corrupt (encodeIcmpPayload seq data) error) = .error .crcMismatch := by
  have hlen : (UInt16.ofNat data.length).toNat=data.length := by
    rw [UInt16.toNat_ofNat',Nat.mod_eq_of_lt (by omega)]
  have hsent : (data++toBeBytes (crc16 data)).length=data.length+2 := by
    rw [List.length_append,length_toBeBytes]
  have hgood : feedAll generator 0xFFFF#16 (stream (data++toBeBytes (crc16 data)))=0#16 := by
    refine feedAll_checked hsent ?_
    rw [List.take_left]
    exact fromBeBytes_toBeBytes data _ (by rw [List.append_nil])
  set received := List.zipWith (· ^^^ ·) (data++toBeBytes (crc16 data)) error with hreceived
  have hcount : received.length=data.length+2 := by
    rw [hreceived,List.length_zipWith,hsent,hlength,Nat.min_self]
  have hframe : corrupt (encodeIcmpPayload seq data) error =
      header seq (UInt16.ofNat data.length)++received := by
    rw [corrupt,drop_encode,encode_eq_header,List.take_left' (length_header _ _)]
  have hmark : feedAll generator 0xFFFF#16 (stream received)≠0#16 := by
    have hbits : (stream (data++toBeBytes (crc16 data))).length=(stream error).length := by
      rw [length_stream,length_stream,hsent,hlength]
    have hlinear := feedAll_xor generator hbits 0xFFFF#16 0#16
    rw [BitVec.xor_zero,hgood,BitVec.zero_xor,← stream_xor (by rw [hsent,hlength])] at hlinear
    rw [hreceived,hlinear]
    exact feedAll_burst_ne_zero (by decide) hconfined (true_mem_stream hnonzero)
  rw [hframe,decode_body _ _ (by rw [hlen,hcount]),hlen,if_pos]
  intro hchecked
  exact hmark (feedAll_checked hcount hchecked)

theorem burst_detected_at_boundary :
    decodeIcmpPayload (corrupt (encodeIcmpPayload 7 [1,2]) [0,0x01,0x80,0]) =
      .error .crcMismatch := by
  have hconfined : Confined 15 16 (stream [0,0x01,0x80,0]) := by decide
  exact burst_detected 7 (by decide) rfl ⟨0x01,by decide,by decide⟩ hconfined

end AetherX.Icmp
