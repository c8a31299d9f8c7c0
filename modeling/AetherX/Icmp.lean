import Mathlib.Data.List.AList
import Mathlib.Data.List.Perm.Basic
import AetherX.BigEndian

/-! Data in the payload of ICMP echo packets: a frame with magic, sequence number, length and
checksum. -/
namespace AetherX.Icmp
open BigEndian List

abbrev Bytes := List UInt8

inductive IcmpError where
  | truncated
  | badMagic
  | crcMismatch
  deriving DecidableEq

def magic : UInt16 := 0xAE11

def crcBit (crc : UInt16) : UInt16 :=
  if crc &&& 0x8000≠0 then (crc <<< 1) ^^^ 0x1021 else crc <<< 1

def crcByte (crc : UInt16) (b : UInt8) : UInt16 :=
  crcBit^[8] (crc ^^^ (b.toUInt16 <<< 8))

def crc16 (data : Bytes) : UInt16 := data.foldl crcByte 0xFFFF

def toBeBytes (n : UInt16) : Bytes := toBytes 2 n.toNat

def fromBeBytes (payload : Bytes) (first : Nat) : UInt16 := UInt16.ofNat (readAt payload first 2)

/- The length field has two bytes, whatever the length of the data. -/
def encodeIcmpPayload (seq : UInt16) (data : Bytes) : Bytes :=
  toBeBytes magic++toBeBytes seq++toBeBytes (UInt16.ofNat data.length)++data ++
    toBeBytes (crc16 data)

def decodeIcmpPayload (payload : Bytes) : Except IcmpError (UInt16 × Bytes) :=
  if payload.length<8 then .error .truncated
  else if fromBeBytes payload 0≠magic then .error .badMagic
  else
    let seq := fromBeBytes payload 2
    let len := (fromBeBytes payload 4).toNat
    if payload.length<6+len+2 then .error .truncated
    else
      let data := (payload.drop 6).take len
      if fromBeBytes payload (6+len)≠crc16 data then .error .crcMismatch
      else .ok (seq, data)

@[simp] theorem length_toBeBytes (n : UInt16) : (toBeBytes n).length=2 := length_toBytes 2 _

theorem fromBeBytes_toBeBytes {payload after : Bytes} (before : Bytes) (n : UInt16)
    (h : payload=before++(toBeBytes n++after)) :
    fromBeBytes payload before.length=n := by
  have hlt : n.toNat<256^2 := n.toNat_lt
  rw [fromBeBytes,readAt_toBytes h,Nat.mod_eq_of_lt hlt,UInt16.ofNat_toNat]

def header (seq len : UInt16) : Bytes := toBeBytes magic++toBeBytes seq++toBeBytes len

variable (seq : UInt16)

@[simp] theorem length_header (len : UInt16) : (header seq len).length=6 := by
  simp [header]

theorem encode_eq_header (data : Bytes) : encodeIcmpPayload seq data =
    header seq (UInt16.ofNat data.length)++(data++toBeBytes (crc16 data)) := by
  simp only [encodeIcmpPayload,header,append_assoc]

theorem drop_encode (data : Bytes) :
    (encodeIcmpPayload seq data).drop 6=data++toBeBytes (crc16 data) := by
  rw [encode_eq_header]
  exact drop_left' (length_header _ _)

theorem fromBeBytes_header (len : UInt16) (body : Bytes) (first : Nat) :
    fromBeBytes (header seq len++body) (6+first)=fromBeBytes body first := by
  rw [fromBeBytes,← length_header seq len,readAt_append,fromBeBytes]

theorem decode_body (len : UInt16) {body : Bytes} (h : len.toNat+2 ≤ body.length) :
    decodeIcmpPayload (header seq len++body) =
      if fromBeBytes body len.toNat≠crc16 (body.take len.toNat) then .error .crcMismatch
      else .ok (seq, body.take len.toNat) := by
  have hfields : header seq len++body =
      toBeBytes magic++(toBeBytes seq++(toBeBytes len++body)) := by
    simp only [header,append_assoc]
  have hmagic : fromBeBytes (header seq len++body) 0=magic :=
    fromBeBytes_toBeBytes [] magic hfields
  have hseq : fromBeBytes (header seq len++body) 2=seq :=
    fromBeBytes_toBeBytes (toBeBytes magic) seq hfields
  have hlen : fromBeBytes (header seq len++body) 4=len :=
    fromBeBytes_toBeBytes (toBeBytes magic++toBeBytes seq) len
      (by rw [hfields,append_assoc])
  have hdrop : (header seq len++body).drop 6=body := drop_left' (length_header _ _)
  simp only [decodeIcmpPayload,hmagic,hseq,hlen,hdrop,fromBeBytes_header,length_append,
    length_header]
  rw [if_neg (by omega),if_neg (by simp),if_neg (by omega)]

/-- What the receiver makes of a frame: the data up to the length modulo 2^16, checked against
whatever two bytes follow. -/
theorem decode_frame (data : Bytes) :
    decodeIcmpPayload (encodeIcmpPayload seq data) =
      if fromBeBytes (encodeIcmpPayload seq data) (6+data.length%2^16) ≠
        crc16 (data.take (data.length%2^16)) then .error .crcMismatch
      else .ok (seq, data.take (data.length%2^16)) := by
  have hlen : (UInt16.ofNat data.length).toNat=data.length%2^16 := UInt16.toNat_ofNat'
  have hle : data.length%2^16 ≤ data.length := Nat.mod_le _ _
  have hbody : (UInt16.ofNat data.length).toNat+2 ≤
      (data++toBeBytes (crc16 data)).length := by
    rw [hlen,length_append,length_toBeBytes]
    omega
  have hdata : (data++toBeBytes (crc16 data)).take (data.length%2^16) =
      data.take (data.length%2^16) := take_append_of_le_length hle
  rw [encode_eq_header,decode_body _ _ hbody,hlen,hdata,fromBeBytes_header]

theorem crc_encode (data : Bytes) :
    fromBeBytes (encodeIcmpPayload seq data) (6+data.length)=crc16 data := by
  rw [encode_eq_header,fromBeBytes_header]
  exact fromBeBytes_toBeBytes data _ (by rw [append_nil])

theorem decode_encode_of_lt {data : Bytes} (h : data.length<2^16) :
    decodeIcmpPayload (encodeIcmpPayload seq data) = .ok (seq, data) := by
  rw [decode_frame,Nat.mod_eq_of_lt h,take_length,crc_encode,if_neg (by simp)]

/-- The round trip holds exactly for data whose length fits the two bytes of the length field. -/
theorem decode_encode_iff (seq : UInt16) (data : Bytes) :
    decodeIcmpPayload (encodeIcmpPayload seq data) = .ok (seq, data) ↔ data.length<2^16 := by
  constructor
  · intro h
    rw [decode_frame] at h
    split_ifs at h
    have hkept : data.take (data.length%2^16)=data := (Prod.mk.inj (Except.ok.inj h)).2
    have hlength : (data.take (data.length%2^16)).length=data.length := by rw [hkept]
    have hmod : data.length%2^16<2^16 := Nat.mod_lt _ (Nat.two_pow_pos 16)
    rw [length_take] at hlength
    omega
  · exact decode_encode_of_lt seq

/- When the length field is zero, the checksum is that of no data. -/
theorem decode_encode_of_wrapped {data : Bytes} (h : data.length%2^16=0)
    (hfollowing : fromBeBytes (encodeIcmpPayload seq data) 6≠0xFFFF) :
    decodeIcmpPayload (encodeIcmpPayload seq data) = .error .crcMismatch := by
  rw [decode_frame,h,take_zero,if_pos]
  exact hfollowing

theorem long_data_rejected :
    decodeIcmpPayload (encodeIcmpPayload 0 (List.replicate 65536 0)) = .error .crcMismatch := by
  refine decode_encode_of_wrapped 0 (by rw [length_replicate]; rfl) ?_
  rw [fromBeBytes,readAt,drop_encode]
  decide

end AetherX.Icmp
