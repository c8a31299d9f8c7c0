import AetherX.ByteText
import AetherX.CheckedWord
import AetherX.Cursor
import AetherX.Machine

/-! The DNS probes: the question that is sent and the reading of the answer, a byte string that
whoever answers may choose. -/
namespace AetherX.DnsAnswers
open BigEndian ByteText CheckedWord Cursor
open CheckedInt (Build)
open Machine (bind_eq_ok)

abbrev Bytes := List UInt8

inductive IpAddr where
  | v4 (octets : Vector UInt8 4)
  | v6 (octets : Vector UInt8 16)

open List

def dnsHeaderLen : Nat := 12
def dnsTypeA : UInt16 := 1
def dnsTypeAaaa : UInt16 := 28
def dnsClassIn : UInt16 := 1

def toBeBytes (n : UInt16) : Bytes := toBytes 2 n.toNat

structure DnsProbeTarget where
  name : Text
  expectedAddresses : List IpAddr

inductive LiveSignalConfigError where
  | invalid (message : String)
  deriving DecidableEq

def isV4 : IpAddr → Bool
  | .v4 _ => true
  | .v6 _ => false

def dnsQueryType (target : DnsProbeTarget) : UInt16 :=
  if target.expectedAddresses.any isV4 then dnsTypeA else dnsTypeAaaa

def isLabelByte (b : UInt8) : Bool :=
  isLower b || isUpper b || isDigit b || b == ch '-' || b == ch '_'

def encodeLabel (label : Text) : Except LiveSignalConfigError Bytes :=
  if label.isEmpty || label.length > 63 || !label.all isLabelByte then
    .error (.invalid "DNS probe name contains an invalid label")
  else .ok (UInt8.ofNat label.length::label)

def trimEndDots (name : Text) : Text := (name.reverse.dropWhile (· == ch '.')).reverse

def encodeDnsName (name : Text) : Except LiveSignalConfigError Bytes := do
  let trimmed := trimEndDots name
  if trimmed.isEmpty || trimmed.length > 253 then
    throw (.invalid "DNS probe name must be a non-empty FQDN")
  let labels ← (trimmed.splitOn (ch '.')).mapM encodeLabel
  return labels.flatten++[0]

def dnsQuestion (id : UInt16) (name : Text) (queryType : UInt16) :
    Except LiveSignalConfigError Bytes := do
  let encoded ← encodeDnsName name
  return toBeBytes id++toBeBytes 0x0100++toBeBytes 1++toBeBytes 0++toBeBytes 0 ++
    toBeBytes 0++encoded++toBeBytes queryType++toBeBytes dnsClassIn

section
variable (build : Build) (target : Target) (bytes : Bytes)

def readU16 (offset : Nat) : Fallible UInt16 := do
  let last ← need ((checkedAdd target offset 2).filter (· ≤ bytes.length))
  let high ← run (index bytes offset)
  let low ← run (index bytes (← run (sub build target last 1)))
  return UInt16.ofNat (ofBytes [high,low])

theorem skip_decreases {target : Target} {bytes : Bytes} {cursor next : Nat} {length : UInt8}
    (hlength : bytes[cursor]? = some length)
    (hnext : checkedAdd target cursor (1+length.toNat)=some next) :
    bytes.length-next < bytes.length-cursor := by
  obtain ⟨hcursor,_⟩ := List.getElem?_eq_some_iff.mp hlength
  rw [checkedAdd,Option.ite_none_right_eq_some,Option.some.injEq] at hnext
  omega

/- The name is skipped, not read: a pointer ends it, wherever it leads. -/
def skipDnsName (cursor : Nat) : Option Nat :=
  match _hlength : bytes[cursor]? with
  | none => none
  | some length =>
    if length=0 then checkedAdd target cursor 1
    else if length &&& 0xc0=0xc0 then (checkedAdd target cursor 2).filter (· ≤ bytes.length)
    else if length &&& 0xc0≠0 then none
    else
      match _hnext : checkedAdd target cursor (1+length.toNat) with
      | none => none
      | some next => if next > bytes.length then none else skipDnsName next
termination_by bytes.length-cursor
decreasing_by
  exact skip_decreases _hlength _hnext

def skipQuestions : Nat → Nat → Fallible Nat
  | 0, cursor => pure cursor
  | questions+1, cursor => do
    let cursor ← need (skipDnsName target bytes cursor)
    let cursor ← need ((checkedAdd target cursor 4).filter (· ≤ bytes.length))
    skipQuestions questions cursor

/- The address in the data of a record of the queried type, and no other record's. -/
def readAddress (recordType : UInt16) (dataStart dataEnd dataLength : Nat) : Fallible IpAddr := do
  if recordType=dnsTypeA ∧ dataLength=4 then
    let a ← run (index bytes dataStart)
    let b ← run (index bytes (← run (add build target dataStart 1)))
    let c ← run (index bytes (← run (add build target dataStart 2)))
    let d ← run (index bytes (← run (add build target dataStart 3)))
    return .v4 ⟨#[a,b,c,d],rfl⟩
  else if recordType=dnsTypeAaaa ∧ dataLength=16 then
    let octets ← run (slice bytes dataStart dataEnd)
    if h : octets.length=16 then return .v6 ⟨octets.toArray,size_toArray.trans h⟩
    else run (.error .outOfRange)
  else throw ()

def readRecord (queryType : UInt16) (cursor : Nat) : Fallible (Option IpAddr × Nat) := do
  let cursor ← need (skipDnsName target bytes cursor)
  let recordType ← readU16 build target bytes cursor
  let recordClass ← readU16 build target bytes (← run (add build target cursor 2))
  let dataLength := (← readU16 build target bytes (← run (add build target cursor 8))).toNat
  let dataStart ← need (checkedAdd target cursor 10)
  let dataEnd ← need ((checkedAdd target dataStart dataLength).filter (· ≤ bytes.length))
  if recordClass=dnsClassIn ∧ recordType=queryType then
    let address ← readAddress build target bytes recordType dataStart dataEnd dataLength
    return (some address, dataEnd)
  else return (none, dataEnd)

def readAnswers (queryType : UInt16) : Nat → Nat → List IpAddr → Fallible (List IpAddr)
  | 0, _, addresses => pure addresses
  | answers+1, cursor, addresses => do
    let (address, next) ← readRecord build target bytes queryType cursor
    readAnswers queryType answers next (addresses++address.toList)

def parseDnsAnswers (expectedId queryType : UInt16) : Fallible (List IpAddr) := do
  ensure (dnsHeaderLen ≤ bytes.length)
  ensure ((← readU16 build target bytes 0)=expectedId)
  let flags ← readU16 build target bytes 2
  -- a response, not truncated, without an error code
  ensure (flags &&& 0x8000≠0 ∧ flags &&& 0x0200=0 ∧ flags &&& 0x000f=0)
  let questions ← readU16 build target bytes 4
  let answers ← readU16 build target bytes 6
  let cursor ← skipQuestions target bytes questions.toNat dnsHeaderLen
  readAnswers build target bytes queryType answers.toNat cursor []
end

section
variable {build : Build} {target : Target} (s : ByteSlice target)

theorem checkedAdd_eq_some_iff {target : Target} {a b c : Nat} :
    checkedAdd target a b=some c ↔ a+b<2^target.bits ∧ a+b=c := by
  rw [checkedAdd,Option.ite_none_right_eq_some,Option.some.injEq]

/-- A position that was checked lies in the buffer. -/
theorem meets_checked (a b : Nat) :
    Meets (need ((checkedAdd target a b).filter (· ≤ s.bytes.length)))
      fun c => c=a+b ∧ c ≤ s.bytes.length := by
  apply meets_need
  intro c hc
  rw [Option.filter_eq_some_iff,checkedAdd_eq_some_iff,decide_eq_true_iff] at hc
  exact ⟨hc.1.2.symm,hc.2⟩

theorem meets_index {i : Nat} (h : i < s.bytes.length) :
    Meets (run (index s.bytes i)) fun _ => True :=
  meets_run (index_of_lt 0 h) trivial

theorem meets_add {a b : Nat} (h : a+b ≤ s.bytes.length+2^31) :
    Meets (run (add build target a b)) fun c => c=a+b :=
  meets_run (add_of_lt (s.add_lt h)) rfl

theorem readU16_meets (offset : Nat) :
    Meets (readU16 build target s.bytes offset) fun _ => offset+2 ≤ s.bytes.length := by
  apply (meets_checked s offset 2).bind
  rintro last ⟨rfl,hlast⟩
  apply (meets_index s (i := offset) (by omega)).bind
  intro high _
  have hsub : sub build target (offset+2) 1 = .ok (offset+1) := sub_of_le (by omega)
  apply (meets_run (P := fun i => i = offset+1) hsub rfl).bind
  rintro i rfl
  apply (meets_index s (i := offset+1) (by omega)).bind
  intro low _
  exact meets_returned hlast

theorem skipDnsName_le {bytes : Bytes} {cursor next : Nat}
    (h : skipDnsName target bytes cursor=some next) : cursor < next ∧ next ≤ bytes.length := by
  fun_induction skipDnsName target bytes cursor with
  | case1 cursor hnone => cases h
  | case2 cursor hsome =>
    obtain ⟨hcursor,_⟩ := List.getElem?_eq_some_iff.mp hsome
    rw [checkedAdd_eq_some_iff] at h
    omega
  | case3 cursor length hsome hzero hpointer =>
    rw [Option.filter_eq_some_iff,checkedAdd_eq_some_iff,decide_eq_true_iff] at h
    omega
  | case4 => cases h
  | case5 => cases h
  | case6 => cases h
  | case7 cursor length hsome hzero hpointer hlabel following hfollowing hle ih =>
    rw [checkedAdd_eq_some_iff] at hfollowing
    have hnext := ih h
    omega

theorem meets_skipDnsName (cursor : Nat) :
    Meets (need (skipDnsName target s.bytes cursor)) fun next => next ≤ s.bytes.length :=
  meets_need fun _ h => (skipDnsName_le h).2

theorem skipQuestions_meets (questions cursor : Nat) (h : cursor ≤ s.bytes.length) :
    Meets (skipQuestions target s.bytes questions cursor) fun next => next ≤ s.bytes.length := by
  induction questions generalizing cursor with
  | zero => exact meets_returned h
  | succ questions ih =>
    apply (meets_skipDnsName s cursor).bind
    intro named _
    apply (meets_checked s named 4).bind
    intro next hnext
    exact ih next hnext.2

theorem readAddress_meets (recordType : UInt16) {dataStart dataEnd dataLength : Nat}
    (hend : dataEnd=dataStart+dataLength) (hle : dataEnd ≤ s.bytes.length) :
    Meets (readAddress build target s.bytes recordType dataStart dataEnd dataLength)
      fun _ => True := by
  rw [readAddress]
  by_cases hv4 : recordType=dnsTypeA ∧ dataLength=4
  · rw [if_pos hv4]
    apply (meets_index s (i := dataStart) (by omega)).bind
    intro a _
    apply (meets_add s (a := dataStart) (b := 1) (by omega)).bind
    rintro i rfl
    apply (meets_index s (i := dataStart+1) (by omega)).bind
    intro b _
    apply (meets_add s (a := dataStart) (b := 2) (by omega)).bind
    rintro i rfl
    apply (meets_index s (i := dataStart+2) (by omega)).bind
    intro c _
    apply (meets_add s (a := dataStart) (b := 3) (by omega)).bind
    rintro i rfl
    apply (meets_index s (i := dataStart+3) (by omega)).bind
    intro d _
    exact meets_returned trivial
  · rw [if_neg hv4]
    by_cases hv6 : recordType=dnsTypeAaaa ∧ dataLength=16
    · rw [if_pos hv6]
      have hslice : slice s.bytes dataStart dataEnd =
          .ok ((s.bytes.drop dataStart).take (dataEnd-dataStart)) := slice_of_le (by omega) hle
      apply (meets_run (P := fun octets => octets.length=16) hslice ?_).bind
      · intro octets hoctets
        rw [dif_pos hoctets]
        exact meets_returned trivial
      · rw [length_take,length_drop]
        omega
    · rw [if_neg hv6]
      exact meets_failed

theorem readRecord_meets (queryType : UInt16) (cursor : Nat) :
    Meets (readRecord build target s.bytes queryType cursor)
      fun r => r.2 ≤ s.bytes.length := by
  apply (meets_skipDnsName s cursor).bind
  intro named hnamed
  apply (readU16_meets s named).bind
  intro recordType _
  apply (meets_add s (a := named) (b := 2) (by omega)).bind
  rintro i rfl
  apply (readU16_meets s (named+2)).bind
  intro recordClass _
  apply (meets_add s (a := named) (b := 8) (by omega)).bind
  rintro i rfl
  apply (readU16_meets s (named+8)).bind
  intro dataLength hfields
  apply (meets_need (P := fun dataStart => dataStart=named+10) ?_).bind
  · rintro dataStart rfl
    apply (meets_checked s (named+10) dataLength.toNat).bind
    intro dataEnd hend
    by_cases hmatch : recordClass=dnsClassIn ∧ recordType=queryType
    · rw [if_pos hmatch]
      apply (readAddress_meets s recordType hend.1 hend.2).bind
      intro address _
      exact meets_returned hend.2
    · rw [if_neg hmatch]
      exact meets_returned hend.2
  · intro dataStart hstart
    rw [checkedAdd_eq_some_iff] at hstart
    exact hstart.2.symm

theorem readAnswers_meets (queryType : UInt16) (answers cursor : Nat) (addresses : List IpAddr) :
    Meets (readAnswers build target s.bytes queryType answers cursor addresses) fun _ => True := by
  induction answers generalizing cursor addresses with
  | zero => exact meets_returned trivial
  | succ answers ih =>
    apply (readRecord_meets s queryType cursor).bind
    intro r _
    exact ih r.2 _

/-- No byte string makes the parser panic. -/
theorem parseDnsAnswers_meets (expectedId queryType : UInt16) :
    Meets (parseDnsAnswers build target s.bytes expectedId queryType) fun _ => True := by
  apply (meets_ensure (dnsHeaderLen ≤ s.bytes.length)).bind
  intro _ hheader
  apply (readU16_meets s 0).bind
  intro id _
  apply (meets_ensure (id=expectedId)).bind
  intro _ _
  apply (readU16_meets s 2).bind
  intro flags _
  apply (meets_ensure _).bind
  intro _ _
  apply (readU16_meets s 4).bind
  intro questions _
  apply (readU16_meets s 6).bind
  intro answers _
  apply (skipQuestions_meets s questions.toNat dnsHeaderLen hheader).bind
  intro cursor _
  exact readAnswers_meets s queryType answers.toNat cursor []
end

abbrev Label := { label : Bytes // 1 ≤ label.length ∧ label.length≤63 }

/- A name as it stands in a message: labels, and then the root or a pointer to the rest. -/
structure WireName where
  labels : List Label
  pointer : Option (Fin (2^14))

def Label.encode (label : Label) : Bytes := UInt8.ofNat label.1.length::label.1

def nameEnd : Option (Fin (2^14)) → Bytes
  | none => [0]
  | some p => [UInt8.ofNat (0xc0+p/256),UInt8.ofNat (p%256)]

def WireName.encode (name : WireName) : Bytes :=
  name.labels.flatMap Label.encode++nameEnd name.pointer

structure ResourceRecord where
  owner : WireName
  type : UInt16
  rclass : UInt16
  ttl : UInt32
  data : Bytes
  short : data.length<2^16
  v4 : type=dnsTypeA → data.length=4
  v6 : type=dnsTypeAaaa → data.length=16

namespace ResourceRecord
def encode (r : ResourceRecord) : Bytes :=
  r.owner.encode++(toBeBytes r.type++(toBeBytes r.rclass++(toBytes 4 r.ttl.toNat ++
    (toBeBytes (UInt16.ofNat r.data.length)++r.data))))

def address (r : ResourceRecord) : Option IpAddr :=
  if r.type=dnsTypeA then
    if h : r.data.length=4 then some (.v4 ⟨r.data.toArray,size_toArray.trans h⟩) else none
  else if r.type=dnsTypeAaaa then
    if h : r.data.length=16 then some (.v6 ⟨r.data.toArray,size_toArray.trans h⟩) else none
  else none

/- The address if the record has the queried type and the class of the internet. -/
def answer (queryType : UInt16) (r : ResourceRecord) : Option IpAddr :=
  if r.rclass=dnsClassIn ∧ r.type=queryType then r.address else none

end ResourceRecord

/- A response without error that is not truncated; what follows the answers is free. -/
structure Response where
  id : UInt16
  flags : UInt16
  isResponse : flags &&& 0x8000≠0
  notTruncated : flags &&& 0x0200=0
  noError : flags &&& 0x000f=0
  records : List ResourceRecord
  countable : records.length<2^16
  nameServers : UInt16
  additional : UInt16
  rest : Bytes

def Response.encode (m : Response) (question : Bytes) : Bytes :=
  toBeBytes m.id++(toBeBytes m.flags++(toBeBytes 1 ++
    (toBeBytes (UInt16.ofNat m.records.length)++(toBeBytes m.nameServers ++
      (toBeBytes m.additional++(question++(m.records.flatMap ResourceRecord.encode ++
        m.rest)))))))

section
variable {build : Build} {target : Target} {s : ByteSlice target} {pos : Nat}

theorem need_checked {a b : Nat} (h : a+b ≤ s.bytes.length) :
    need ((checkedAdd target a b).filter (· ≤ s.bytes.length))=returned (a+b) := by
  rw [checkedAdd_of_lt (s.add_lt (by omega)),Option.filter_some,if_pos (decide_eq_true h)]
  rfl

theorem run_add {a b : Nat} (h : a+b ≤ s.bytes.length+2^31) :
    run (add build target a b)=returned (a+b) := by
  rw [add_of_lt (s.add_lt h)]
  rfl

theorem run_index {i : Nat} {b : UInt8} (h : s.bytes[i]? = some b) :
    run (index s.bytes i)=returned b := by
  rw [index_of_getElem? h]
  rfl

theorem readU16_at {n : UInt16} (h : At s.bytes pos (toBeBytes n)) :
    readU16 build target s.bytes pos=returned n := by
  have hle : pos+2 ≤ s.bytes.length := h.add_length_le (by simp [toBeBytes,toBytes])
  have hbytes : toBeBytes n=[UInt8.ofNat (n.toNat/256)]++[UInt8.ofNat n.toNat] := rfl
  have hvalue : ofBytes [UInt8.ofNat (n.toNat/256),UInt8.ofNat n.toNat]=n.toNat :=
    (ofBytes_toBytes 2 n.toNat).trans (Nat.mod_eq_of_lt n.toNat_lt)
  rw [hbytes] at h
  obtain ⟨hhigh,hlow⟩ := at_append h
  rw [length_singleton] at hlow
  have hsub : run (sub build target (pos+2) 1)=returned (pos+1) := by
    rw [sub_of_le (by omega)]
    rfl
  rw [readU16,need_checked hle,returned_bind,run_index hhigh.getElem?,returned_bind,hsub,
    returned_bind,run_index hlow.getElem?,returned_bind,hvalue,UInt16.ofNat_toNat]
  rfl

theorem label_byte {n : Nat} (hpos : 1 ≤ n) (hle : n≤63) :
    UInt8.ofNat n≠0 ∧ UInt8.ofNat n &&& 0xc0≠0xc0 ∧ UInt8.ofNat n &&& 0xc0=0 ∧
      (UInt8.ofNat n).toNat=n := by
  have hall : ∀ n<64, 1 ≤ n → UInt8.ofNat n≠0 ∧ UInt8.ofNat n &&& 0xc0≠0xc0 ∧
      UInt8.ofNat n &&& 0xc0=0 ∧ (UInt8.ofNat n).toNat=n := by decide
  exact hall n (by omega) hpos

theorem pointer_byte (p : Fin (2^14)) :
    UInt8.ofNat (0xc0+p/256)≠0 ∧ UInt8.ofNat (0xc0+p/256) &&& 0xc0=0xc0 := by
  have hall : ∀ n<64, UInt8.ofNat (0xc0+n)≠0 ∧ UInt8.ofNat (0xc0+n) &&& 0xc0=0xc0 := by
    decide
  exact hall (p/256) (by omega)

theorem skipDnsName_end {length : UInt8} (hbyte : s.bytes[pos]? = some length)
    (h : length=0 ∨ length &&& 0xc0=0xc0) : skipDnsName target s.bytes pos =
      if length=0 then checkedAdd target pos 1
      else (checkedAdd target pos 2).filter (· ≤ s.bytes.length) := by
  rw [skipDnsName]
  split
  · rename_i hnone
    rw [hbyte] at hnone
    cases hnone
  · rename_i found hfound
    obtain rfl : length=found := Option.some.inj (hbyte.symm.trans hfound)
    by_cases hzero : length=0
    · rw [if_pos hzero,if_pos hzero]
    · rw [if_neg hzero,if_neg hzero,if_pos (h.resolve_left hzero)]

theorem skipDnsName_label {length : UInt8} (hbyte : s.bytes[pos]? = some length)
    (hzero : length≠0) (hpointer : length &&& 0xc0≠0xc0) (hlabel : length &&& 0xc0=0)
    (hle : pos+(1+length.toNat) ≤ s.bytes.length) : skipDnsName target s.bytes pos =
      skipDnsName target s.bytes (pos+(1+length.toNat)) := by
  have hsum : checkedAdd target pos (1+length.toNat)=some (pos+(1+length.toNat)) :=
    checkedAdd_of_lt (s.add_lt (by omega))
  conv_lhs => rw [skipDnsName]
  split
  · rename_i hnone
    rw [hbyte] at hnone
    cases hnone
  · rename_i found hfound
    obtain rfl : length=found := Option.some.inj (hbyte.symm.trans hfound)
    rw [if_neg hzero,if_neg hpointer,if_neg (not_not.mpr hlabel)]
    split
    · rename_i hnone
      rw [hsum] at hnone
      cases hnone
    · rename_i next hnext
      obtain rfl : pos+(1+length.toNat)=next := Option.some.inj (hsum.symm.trans hnext)
      rw [if_neg (Nat.not_lt.mpr hle)]

theorem skipDnsName_nameEnd {pointer : Option (Fin (2^14))}
    (h : At s.bytes pos (nameEnd pointer)) :
    skipDnsName target s.bytes pos=some (pos+(nameEnd pointer).length) := by
  have hle : pos+(nameEnd pointer).length ≤ s.bytes.length :=
    h.add_length_le (by cases pointer <;> simp [nameEnd])
  cases pointer with
  | none =>
    rw [skipDnsName_end h.getElem? (Or.inl rfl),if_pos rfl]
    exact checkedAdd_of_lt (s.add_lt (Nat.le_trans hle (Nat.le_add_right _ _)))
  | some p =>
    have htwo : pos+2 ≤ s.bytes.length := hle
    obtain ⟨hzero,hpointer⟩ := pointer_byte p
    rw [skipDnsName_end h.getElem? (Or.inr hpointer),if_neg hzero,
      checkedAdd_of_lt (s.add_lt (by omega)),Option.filter_some,if_pos (decide_eq_true htwo)]
    rfl

theorem skipDnsName_at (labels : List Label) (pointer : Option (Fin (2^14)))
    (h : At s.bytes pos (WireName.mk labels pointer).encode) : skipDnsName target s.bytes pos =
      some (pos+(WireName.mk labels pointer).encode.length) := by
  induction labels generalizing pos with
  | nil => exact skipDnsName_nameEnd h
  | cons label labels ih =>
    have hencode : (WireName.mk (label::labels) pointer).encode =
        label.encode++(WireName.mk labels pointer).encode := by
      simp only [WireName.encode,flatMap_cons,append_assoc]
    rw [hencode] at h ⊢
    obtain ⟨hlabel,hrest⟩ := at_append h
    have hlength : label.encode.length=1+label.1.length := by
      rw [Label.encode,length_cons,Nat.add_comm]
    obtain ⟨hzero,hpointer,hclear,hvalue⟩ := label_byte label.2.1 label.2.2
    have hle : pos+(1+(UInt8.ofNat label.1.length).toNat) ≤ s.bytes.length := by
      rw [hvalue,← hlength]
      exact hlabel.add_length_le (by simp [Label.encode])
    rw [skipDnsName_label hlabel.getElem? hzero hpointer hclear hle,hvalue,← hlength,ih hrest,
      length_append,Nat.add_assoc]

theorem length_toBeBytes (n : UInt16) : (toBeBytes n).length=2 := length_toBytes 2 _

theorem length_encode_record (r : ResourceRecord) :
    r.encode.length=r.owner.encode.length+10+r.data.length := by
  simp only [ResourceRecord.encode,length_append,length_toBeBytes,length_toBytes]
  omega

theorem readV4_at {data : Bytes} {dataStart : Nat} (h : At s.bytes dataStart data)
    (hlength : data.length=4) :
    readAddress build target s.bytes dnsTypeA dataStart (dataStart+data.length) data.length =
      returned (.v4 ⟨data.toArray,size_toArray.trans hlength⟩) := by
  match data, hlength with
  | [a,b,c,d], hlength =>
    have hle : dataStart+4 ≤ s.bytes.length := h.add_length_le (by simp)
    have hadd : ∀ i≤4, run (add build target dataStart i)=returned (dataStart+i) :=
      fun i hi => run_add (s := s) (by omega)
    rw [readAddress,if_pos ⟨rfl,hlength⟩,run_index h.getElem?,returned_bind,
      hadd 1 (by omega),returned_bind,run_index (h.getElem?_add (i := 1) (by simp)),
      returned_bind,hadd 2 (by omega),returned_bind,
      run_index (h.getElem?_add (i := 2) (by simp)),returned_bind,hadd 3 (by omega),
      returned_bind,run_index (h.getElem?_add (i := 3) (by simp)),returned_bind]
    rfl

theorem readAddress_at {r : ResourceRecord} {dataStart : Nat} (h : At s.bytes dataStart r.data)
    (htype : r.type=dnsTypeA ∨ r.type=dnsTypeAaaa) :
    ∃ address, r.address=some address ∧
      readAddress build target s.bytes r.type dataStart (dataStart+r.data.length)
        r.data.length=returned address := by
  have hne : r.data≠[] := by
    rw [ne_eq,← length_eq_zero_iff]
    rcases htype with htype | htype
    · rw [r.v4 htype]
      decide
    · rw [r.v6 htype]
      decide
  have hle := h.add_length_le hne
  rcases htype with htype | htype
  · have hlength := r.v4 htype
    rw [ResourceRecord.address,if_pos htype,dif_pos hlength]
    refine ⟨_,rfl,?_⟩
    rw [htype]
    exact readV4_at h hlength
  · have hlength := r.v6 htype
    have hother : r.type≠dnsTypeA := by
      rw [htype]
      decide
    rw [ResourceRecord.address,if_neg hother,if_pos htype,dif_pos hlength]
    refine ⟨_,rfl,?_⟩
    have hslice : slice s.bytes dataStart (dataStart+r.data.length) = .ok r.data := by
      rw [slice_of_le (by omega) hle,Nat.add_sub_cancel_left,h.take_drop]
    rw [readAddress,if_neg fun hv4 => hother hv4.1,if_pos ⟨htype,hlength⟩,hslice]
    exact dif_pos hlength

variable {queryType : UInt16}

/-- What is read of a record: its address if it was asked for, and where the next one starts. -/
theorem readRecord_at (r : ResourceRecord) (h : At s.bytes pos r.encode)
    (hquery : queryType=dnsTypeA ∨ queryType=dnsTypeAaaa) :
    readRecord build target s.bytes queryType pos =
      returned (r.answer queryType, pos+r.encode.length) := by
  have hle : pos+r.encode.length ≤ s.bytes.length :=
    h.add_length_le (by rw [ne_eq,← length_eq_zero_iff,length_encode_record]; omega)
  rw [length_encode_record] at hle ⊢
  obtain ⟨howner,hfields⟩ := at_append h
  obtain ⟨htype,hfields⟩ := at_append hfields
  obtain ⟨hclass,hfields⟩ := at_append hfields
  obtain ⟨_,hfields⟩ := at_append hfields
  obtain ⟨hcount,hdata⟩ := at_append hfields
  simp only [length_toBeBytes,length_toBytes] at hclass hcount hdata
  have hnamed : need (skipDnsName target s.bytes pos) =
      returned (pos+r.owner.encode.length) := by
    rw [skipDnsName_at r.owner.labels r.owner.pointer howner]
    rfl
  have hvalue : (UInt16.ofNat r.data.length).toNat=r.data.length := by
    rw [UInt16.toNat_ofNat',Nat.mod_eq_of_lt r.short]
  generalize hstart : pos+r.owner.encode.length=named at *
  have hten : need (checkedAdd target named 10)=returned (named+10) := by
    rw [checkedAdd_of_lt (s.add_lt (by omega))]
    rfl
  have hadd : ∀ i≤10, run (add build target named i)=returned (named+i) :=
    fun i hi => run_add (s := s) (by omega)
  rw [readRecord,hnamed,returned_bind,readU16_at htype,returned_bind,hadd 2 (by omega),
    returned_bind,readU16_at hclass,returned_bind,hadd 8 (by omega),returned_bind,
    readU16_at hcount,returned_bind,hvalue,hten,returned_bind,need_checked (by omega),
    returned_bind]
  have hnext : named+10+r.data.length=pos+(r.owner.encode.length+10+r.data.length) := by
    omega
  rw [ResourceRecord.answer,← hnext]
  by_cases hmatch : r.rclass=dnsClassIn ∧ r.type=queryType
  · obtain ⟨address,haddress,hread⟩ := readAddress_at hdata (hmatch.2 ▸ hquery)
    rw [if_pos hmatch,if_pos hmatch,haddress,hread]
    rfl
  · rw [if_neg hmatch,if_neg hmatch]
    rfl

theorem readAnswers_at (hquery : queryType=dnsTypeA ∨ queryType=dnsTypeAaaa)
    (records : List ResourceRecord) (h : At s.bytes pos (records.flatMap ResourceRecord.encode))
    (addresses : List IpAddr) :
    readAnswers build target s.bytes queryType records.length pos addresses =
      returned (addresses++records.filterMap (·.answer queryType)) := by
  induction records generalizing pos addresses with
  | nil =>
    rw [filterMap_nil,append_nil]
    rfl
  | cons r records ih =>
    obtain ⟨hrecord,hrest⟩ := at_append h
    rw [length_cons,readAnswers,readRecord_at r hrecord hquery,returned_bind]
    refine (ih hrest _).trans ?_
    rw [append_assoc]
    congr 2
    cases hanswer : r.answer queryType with
    | none => rw [filterMap_cons_none hanswer]; rfl
    | some address => rw [filterMap_cons_some hanswer]; rfl

theorem skipQuestion_at {question : Bytes} (labels : List Label)
    (hquestion : question=(WireName.mk labels none).encode++(toBeBytes queryType++toBeBytes dnsClassIn))
    (h : At s.bytes pos question) :
    skipQuestions target s.bytes 1 pos=returned (pos+question.length) := by
  have hlength : question.length=(WireName.mk labels none).encode.length+4 := by
    rw [hquestion,length_append,length_append,length_toBeBytes,length_toBeBytes]
  have hle : pos+question.length ≤ s.bytes.length :=
    h.add_length_le (by rw [ne_eq,← length_eq_zero_iff]; omega)
  rw [hquestion] at h
  have hnamed : need (skipDnsName target s.bytes pos) =
      returned (pos+(WireName.mk labels none).encode.length) := by
    rw [skipDnsName_at labels none (at_append h).1]
    rfl
  rw [skipQuestions,hnamed,returned_bind,need_checked (by omega),returned_bind,hlength,
    ← Nat.add_assoc]
  rfl

/-- A response to the question is read to the addresses of the records that were asked for. -/
theorem parseDnsAnswers_response (hquery : queryType=dnsTypeA ∨ queryType=dnsTypeAaaa)
    (m : Response) {question : Bytes} (labels : List Label)
    (hquestion : question=(WireName.mk labels none).encode++(toBeBytes queryType++toBeBytes dnsClassIn))
    (h : s.bytes=m.encode question) :
    parseDnsAnswers build target s.bytes m.id queryType =
      returned (m.records.filterMap (·.answer queryType)) := by
  have hwhole : At s.bytes 0 (m.encode question) := by
    rw [h]
    exact prefix_rfl
  obtain ⟨hid,hfields⟩ := at_append hwhole
  obtain ⟨hflags,hfields⟩ := at_append hfields
  obtain ⟨hquestions,hfields⟩ := at_append hfields
  obtain ⟨hanswers,hfields⟩ := at_append hfields
  obtain ⟨_,hfields⟩ := at_append hfields
  obtain ⟨hcounts,hfields⟩ := at_append hfields
  obtain ⟨hasked,hfields⟩ := at_append hfields
  obtain ⟨hrecords,_⟩ := at_append hfields
  simp only [length_toBeBytes,Nat.zero_add,Nat.reduceAdd] at hflags hquestions hanswers hcounts
  simp only [length_toBeBytes,Nat.zero_add,Nat.reduceAdd] at hasked hrecords
  have hheader : dnsHeaderLen ≤ s.bytes.length :=
    hcounts.add_length_le (by simp [toBeBytes,toBytes])
  have hcount : (UInt16.ofNat m.records.length).toNat=m.records.length := by
    rw [UInt16.toNat_ofNat',Nat.mod_eq_of_lt m.countable]
  rw [parseDnsAnswers,ensure_bind hheader,readU16_at hid,returned_bind,ensure_bind rfl,
    readU16_at hflags,returned_bind,ensure_bind ⟨m.isResponse,m.notTruncated,m.noError⟩,
    readU16_at hquestions,returned_bind,readU16_at hanswers,returned_bind,hcount]
  have hskip : skipQuestions target s.bytes (1 : UInt16).toNat dnsHeaderLen =
      returned (12+question.length) := skipQuestion_at labels hquestion hasked
  rw [hskip,returned_bind,readAnswers_at hquery m.records hrecords,nil_append]
end

theorem encodeLabel_ok {label : Text} {out : Bytes} (h : encodeLabel label = .ok out) :
    ∃ l : Label, out=l.encode := by
  rw [encodeLabel] at h
  split at h
  · cases h
  · rename_i hvalid
    simp only [Bool.or_eq_true,List.isEmpty_iff,decide_eq_true_eq,not_or] at hvalid
    have hpos : 1 ≤ label.length := List.length_pos_iff.mpr hvalid.1.1
    cases h
    exact ⟨⟨label,hpos,by omega⟩,rfl⟩

theorem mapM_encodeLabel_ok {parts : List Text} {out : List Bytes}
    (h : parts.mapM encodeLabel = .ok out) :
    ∃ labels : List Label, out.flatten=labels.flatMap Label.encode := by
  induction parts generalizing out with
  | nil =>
    cases h
    exact ⟨[],rfl⟩
  | cons part parts ih =>
    rw [mapM_cons,bind_eq_ok] at h
    obtain ⟨first,hfirst,h⟩ := h
    obtain ⟨rest,hrest,h⟩ := bind_eq_ok.mp h
    obtain ⟨label,rfl⟩ := encodeLabel_ok hfirst
    obtain ⟨labels,hlabels⟩ := ih hrest
    cases h
    exact ⟨label::labels,by rw [flatten_cons,hlabels,flatMap_cons]⟩

theorem encodeDnsName_ok {name : Text} {encoded : Bytes} (h : encodeDnsName name = .ok encoded) :
    ∃ labels : List Label, encoded=(WireName.mk labels none).encode := by
  rw [encodeDnsName] at h
  split at h
  · cases h
  · obtain ⟨out,hout,h⟩ := bind_eq_ok.mp h
    obtain ⟨labels,hlabels⟩ := mapM_encodeLabel_ok hout
    cases h
    exact ⟨labels,by rw [hlabels]; rfl⟩

/-- The question of an accepted name: its labels, the root, the type and the class. -/
theorem dnsQuestion_ok {id queryType : UInt16} {name : Text} {query : Bytes}
    (h : dnsQuestion id name queryType = .ok query) : ∃ labels : List Label, query.drop 12 =
      (WireName.mk labels none).encode++(toBeBytes queryType++toBeBytes dnsClassIn) := by
  obtain ⟨encoded,hencoded,h⟩ := bind_eq_ok.mp h
  obtain ⟨labels,rfl⟩ := encodeDnsName_ok hencoded
  cases h
  refine ⟨labels,?_⟩
  simp only [append_assoc]
  rfl

theorem dnsQueryType_cases (probe : DnsProbeTarget) :
    dnsQueryType probe=dnsTypeA ∨ dnsQueryType probe=dnsTypeAaaa := by
  rw [dnsQueryType]
  split
  · exact Or.inl rfl
  · exact Or.inr rfl

/-- The parser returns on every byte string, and on a response to the probe's question it returns
the addresses of the records of the queried type and class IN, in order. -/
theorem parseDnsAnswers_exact (build : Build) (target : Target) :
    (∀ (response : ByteSlice target) (expectedId queryType : UInt16),
      ∃ r, (parseDnsAnswers build target response.bytes expectedId queryType).run = .ok r) ∧
    ∀ (probe : DnsProbeTarget) (query : Bytes) (m : Response) (response : ByteSlice target),
      dnsQuestion m.id probe.name (dnsQueryType probe) = .ok query →
      response.bytes=m.encode (query.drop dnsHeaderLen) →
      (parseDnsAnswers build target response.bytes m.id (dnsQueryType probe)).run =
        .ok (.ok (m.records.filterMap (·.answer (dnsQueryType probe)))) := by
  constructor
  · intro response expectedId queryType
    exact (parseDnsAnswers_meets response expectedId queryType).returns
  · intro probe query m response hquery hresponse
    obtain ⟨labels,hlabels⟩ := dnsQuestion_ok hquery
    rw [parseDnsAnswers_response (dnsQueryType_cases probe) m labels hlabels hresponse]
    rfl

/- A probe for one IPv4 address, and a response with an alias and the address of what it names. -/
def anchorProbe : DnsProbeTarget := ⟨text "a.b.",[.v4 ⟨#[10,0,0,1],rfl⟩]⟩

def aliasRecord : ResourceRecord where
  owner := ⟨[],some 12⟩
  type := 5
  rclass := 1
  ttl := 60
  data := [1,99,0xc0,14]
  short := by decide
  v4 := by decide
  v6 := by decide

def addressRecord : ResourceRecord where
  owner := ⟨[⟨[99],by decide⟩],some 14⟩
  type := 1
  rclass := 1
  ttl := 60
  data := [10,0,0,1]
  short := by decide
  v4 := by decide
  v6 := by decide

def anchorResponse : Response where
  id := 7
  flags := 0x8180
  isResponse := by decide
  notTruncated := by decide
  noError := by decide
  records := [aliasRecord,addressRecord]
  countable := by decide
  nameServers := 0
  additional := 0
  rest := []

def anchorSlice : ByteSlice .bits32 where
  bytes := anchorResponse.encode [1,97,1,98,0,0,1,0,1]
  fits := by decide

theorem parseDnsAnswers_exact_alias :
    (parseDnsAnswers .release .bits32 anchorSlice.bytes 7 dnsTypeA).run =
      .ok (.ok [.v4 ⟨#[10,0,0,1],rfl⟩]) :=
  (parseDnsAnswers_exact .release .bits32).2 anchorProbe
    [0,7,1,0,0,1,0,0,0,0,0,0,1,97,1,98,0,0,1,0,1] anchorResponse anchorSlice
    rfl rfl

end AetherX.DnsAnswers
