import AetherX.Audit
import AetherX.Base64

/-! Public subscription tokens: the pre-authentication encoding, issuing, splitting and
verifying. Base64 and Ed25519 are parameters. -/
namespace AetherX.Token
open Merkle (Bytes)
open Audit (toLeBytes)

abbrev Text := List Char

/- The constructors of the crate's error type that these functions return. What the base64
   decoder reports is not looked into. -/
inductive AntiForgeryError where
  | badSignature
  | malformed (text : String)
  | base64
  deriving DecidableEq

structure Signature where
  bytes : Bytes
  size : bytes.length=64
  deriving DecidableEq

structure Engine where
  encode : Bytes → Text
  decode : Text → Option Bytes

structure Engine.Exact (engine : Engine) : Prop where
  roundTrip : ∀ bytes, engine.decode (engine.encode bytes)=some bytes
  noDot : ∀ bytes, '.' ∉ engine.encode bytes
  empty : engine.encode []=[]

/- The signature scheme the module calls, with its two kinds of keys. -/
structure Ed25519 (SigningKey VerifyingKey : Type) where
  verifyingKey : SigningKey → VerifyingKey
  sign : SigningKey → Bytes → Signature
  verify : VerifyingKey → Bytes → Signature → Bool

def Ed25519.Correct {SigningKey VerifyingKey : Type} (ed : Ed25519 SigningKey VerifyingKey) : Prop :=
  ∀ key msg, ed.verify (ed.verifyingKey key) msg (ed.sign key msg)=true

def ascii (text : Text) : Bytes := text.map fun c => UInt8.ofNat c.toNat

def pasetoV4PublicHeader : Text := "v4.public.".toList

/- u64::try_from of a length, and its bytes. -/
def lengthBytes (len : Nat) (text : String) : Except AntiForgeryError Bytes :=
  if len<2^64 then .ok (toLeBytes (UInt64.ofNat len)) else .error (.malformed text)

def encodePieces : List Bytes → Except AntiForgeryError Bytes
  | [] => .ok []
  | piece::rest => do
    let len ← lengthBytes piece.length "PASETO PAE piece is too large"
    let out ← encodePieces rest
    .ok (len++piece++out)

def preAuthEncode (pieces : List Bytes) : Except AntiForgeryError Bytes := do
  let count ← lengthBytes pieces.length "too many PASETO PAE pieces"
  let out ← encodePieces pieces
  .ok (count++out)

section
variable {SigningKey VerifyingKey : Type} (ed : Ed25519 SigningKey VerifyingKey) (engine : Engine)

def issuePublicPayload (signingKey : SigningKey) (payload footer implicitAssertion : Bytes) :
    Except AntiForgeryError Text :=
  if payload=[] then .error (.malformed "PASETO v4.public payload must not be empty")
  else do
    let pae ← preAuthEncode [ascii pasetoV4PublicHeader,payload,footer,implicitAssertion]
    let signature := ed.sign signingKey pae
    let message := payload++signature.bytes
    let token := pasetoV4PublicHeader++engine.encode message
    if footer=[] then .ok token else .ok (token ++ '.' :: engine.encode footer)

def decodeField (field : Text) : Except AntiForgeryError Bytes :=
  match engine.decode field with
  | some bytes => .ok bytes
  | none => .error .base64

def splitPublicToken (token : Text) : Except AntiForgeryError (Bytes × Bytes) :=
  let fields := token.splitOn '.'
  if fields[0]? ≠ some "v4".toList ∨ fields[1]? ≠ some "public".toList ∨ fields[4]?.isSome then
    .error (.malformed "expected a v4.public token with zero or one footer")
  else
    match fields[2]? with
    | none => .error (.malformed "v4.public token has no message")
    | some encodedMessage => do
      let message ← decodeField engine encodedMessage
      let footer ← match fields[3]? with
        | some encoded =>
          if encoded≠[] then decodeField engine encoded
          else .error (.malformed "v4.public token footer must not be empty when present")
        | none => .ok []
      .ok (message, footer)

def verifyPublicPayload (verifyingKey : VerifyingKey) (token : Text)
    (expectedFooter : Option Bytes) (implicitAssertion : Bytes) :
    Except AntiForgeryError Bytes := do
  let (message, footer) ← splitPublicToken engine token
  if expectedFooter.any fun expected => footer≠expected then .error .badSignature
  else if h : message.length<64 then
    .error (.malformed "v4.public message is shorter than an Ed25519 signature")
  else
    let payloadLength := message.length-64
    let payload := message.take payloadLength
    let signature : Signature := ⟨message.drop payloadLength,by
      rw [List.length_drop]
      omega⟩
    let pae ← preAuthEncode [ascii pasetoV4PublicHeader,payload,footer,implicitAssertion]
    if ed.verify verifyingKey pae signature then .ok payload else .error .badSignature
end

section
variable {SigningKey VerifyingKey : Type} {ed : Ed25519 SigningKey VerifyingKey} {engine : Engine}

theorem encode_eq_nil (h : engine.Exact) {bytes : Bytes} (he : engine.encode bytes=[]) :
    bytes=[] := by
  have hnil := h.roundTrip []
  rw [h.empty,← he,h.roundTrip] at hnil
  exact Option.some.inj hnil

theorem encodePieces_ok {pieces : List Bytes} (h : ∀ piece∈pieces, piece.length<2^64) :
    ∃ out, encodePieces pieces = .ok out := by
  induction pieces with
  | nil => exact ⟨[],rfl⟩
  | cons piece rest ih =>
    rw [List.forall_mem_cons] at h
    obtain ⟨out,hout⟩ := ih h.2
    refine ⟨toLeBytes (UInt64.ofNat piece.length)++piece++out,?_⟩
    rw [encodePieces,lengthBytes,if_pos h.1,hout]
    rfl

theorem preAuthEncode_ok (pieces : List Bytes) (hcount : pieces.length<2^64)
    (h : ∀ piece∈pieces, piece.length<2^64) : ∃ pae, preAuthEncode pieces = .ok pae := by
  obtain ⟨out,hout⟩ := encodePieces_ok h
  refine ⟨toLeBytes (UInt64.ofNat pieces.length)++out,?_⟩
  rw [preAuthEncode,lengthBytes,if_pos hcount,hout]
  rfl

theorem splitOn_last {field : Text} (h : '.' ∉ field) : field.splitOn '.' = [field] := by
  have hsingle : (['.'].intercalate [field]).splitOn '.' = [field] :=
    List.splitOn_intercalate '.' (by simpa using h) (List.cons_ne_nil _ _)
  rwa [List.intercalate_singleton] at hsingle

theorem splitOn_field {field : Text} (h : '.' ∉ field) (rest : Text) :
    (field ++ '.' :: rest).splitOn '.' = field::rest.splitOn '.' := by
  have hsplit : (field ++ '.' :: rest).splitOn '.' = field.splitOn '.' ++ rest.splitOn '.' :=
    List.splitOnP_append_cons _ _ (beq_self_eq_true '.')
  rw [hsplit,splitOn_last h]
  rfl

theorem splitOn_header (rest : Text) : (pasetoV4PublicHeader++rest).splitOn '.' =
    "v4".toList :: "public".toList::rest.splitOn '.' := by
  have hheader : pasetoV4PublicHeader++rest =
      "v4".toList ++ '.' :: ("public".toList ++ '.' :: rest) := rfl
  rw [hheader,splitOn_field (by decide),splitOn_field (by decide)]

theorem splitPublicToken_bare (h : engine.Exact) (message : Bytes) :
    splitPublicToken engine (pasetoV4PublicHeader++engine.encode message) =
      .ok (message, []) := by
  have hfields := splitOn_header (engine.encode message)
  rw [splitOn_last (h.noDot message)] at hfields
  simp only [splitPublicToken,hfields]
  simp [decodeField,h.roundTrip]
  rfl

theorem splitPublicToken_footer (h : engine.Exact) (message : Bytes) {footer : Bytes}
    (hne : footer≠[]) :
    splitPublicToken engine (pasetoV4PublicHeader++engine.encode message ++
      '.' :: engine.encode footer) = .ok (message, footer) := by
  have hencoded : engine.encode footer≠[] := fun he => hne (encode_eq_nil h he)
  have hfields := splitOn_header (engine.encode message ++ '.' :: engine.encode footer)
  rw [splitOn_field (h.noDot message),splitOn_last (h.noDot footer)] at hfields
  simp only [splitPublicToken,List.append_assoc,hfields]
  simp [decodeField,h.roundTrip,hencoded]
  rfl

/-- A message made of a payload and its signature verifies and gives the payload back. -/
theorem verifyPublicPayload_signed (hed : ed.Correct) (key : SigningKey) {token : Text}
    {payload footer implicitAssertion pae : Bytes} (hpae : preAuthEncode
      [ascii pasetoV4PublicHeader,payload,footer,implicitAssertion] = .ok pae)
    (hsplit : splitPublicToken engine token =
      .ok (payload++(ed.sign key pae).bytes, footer)) {expectedFooter : Option Bytes}
    (hfooter : expectedFooter=none ∨ expectedFooter=some footer) :
    verifyPublicPayload ed engine (ed.verifyingKey key) token expectedFooter implicitAssertion =
      .ok payload := by
  have hlen : (payload++(ed.sign key pae).bytes).length=payload.length+64 := by
    rw [List.length_append,(ed.sign key pae).size]
  have hany : ¬ (expectedFooter.any fun expected => footer≠expected)=true := by
    cases hfooter with
    | inl hnone => simp [hnone]
    | inr hsome => simp [hsome]
  have htake : (payload++(ed.sign key pae).bytes).take
      ((payload++(ed.sign key pae).bytes).length-64)=payload := by
    rw [hlen,Nat.add_sub_cancel,List.take_left]
  have hdrop : (payload++(ed.sign key pae).bytes).drop
      ((payload++(ed.sign key pae).bytes).length-64)=(ed.sign key pae).bytes := by
    rw [hlen,Nat.add_sub_cancel,List.drop_left]
  simp only [verifyPublicPayload,hsplit,bind,Except.bind]
  rw [if_neg hany,dif_neg (by omega)]
  simp only [htake,hdrop,hpae]
  rw [if_pos (hed key pae)]

/-- An issued token verifies under the key's public half and yields the payload, with or without
the footer given. The lengths are lengths of slices. -/
theorem verify_issued (ed : Ed25519 SigningKey VerifyingKey) (hed : ed.Correct) (engine : Engine)
    (hengine : engine.Exact) (key : SigningKey) (payload footer implicitAssertion : Bytes)
    (hpayload : payload≠[]) (hlen : payload.length<2^64 ∧ footer.length<2^64 ∧
      implicitAssertion.length<2^64) :
    ∃ token, issuePublicPayload ed engine key payload footer implicitAssertion = .ok token ∧
      ∀ expectedFooter, expectedFooter=none ∨ expectedFooter=some footer →
        verifyPublicPayload ed engine (ed.verifyingKey key) token expectedFooter
          implicitAssertion = .ok payload := by
  obtain ⟨pae,hpae⟩ := preAuthEncode_ok
    [ascii pasetoV4PublicHeader,payload,footer,implicitAssertion] (by simp)
    (by
      simp only [List.forall_mem_cons,List.not_mem_nil,false_imp_iff,implies_true,and_true]
      exact ⟨by decide,hlen.1,hlen.2.1,hlen.2.2⟩)
  by_cases hfooter : footer=[]
  · subst hfooter
    refine ⟨_,?_,fun expectedFooter he => verifyPublicPayload_signed hed key hpae
      (splitPublicToken_bare hengine _) he⟩
    rw [issuePublicPayload,if_neg hpayload,hpae]
    rfl
  · refine ⟨_,?_,fun expectedFooter he => verifyPublicPayload_signed hed key hpae
      (splitPublicToken_footer hengine _ hfooter) he⟩
    rw [issuePublicPayload,if_neg hpayload,hpae]
    simp only [bind,Except.bind,if_neg hfooter]
end

def urlSafe : Base64.Alphabet := ⟨[
  'A', 'B', 'C', 'D', 'E', 'F', 'G', 'H', 'I', 'J', 'K', 'L', 'M', 'N', 'O', 'P', 'Q', 'R', 'S',
  'T', 'U', 'V', 'W', 'X', 'Y', 'Z', 'a', 'b', 'c', 'd', 'e', 'f', 'g', 'h', 'i', 'j', 'k', 'l',
  'm', 'n', 'o', 'p', 'q', 'r', 's', 't', 'u', 'v', 'w', 'x', 'y', 'z', '0', '1', '2', '3', '4',
  '5', '6', '7', '8', '9', '-', '_'],by decide,by decide +kernel⟩

def urlSafeNoPad : Engine := ⟨Base64.encode urlSafe,Base64.decode urlSafe⟩

theorem urlSafeNoPad_exact : urlSafeNoPad.Exact where
  roundTrip := Base64.decode_encode_bytes urlSafe
  noDot bytes h := absurd (Base64.encode_subset urlSafe bytes h) (by decide)
  empty := rfl

/- The public test vector of the crate: payload, footer, keys and signature. -/
def vectorPayload : Bytes := ascii
  ("\x7b\"data\":\"this is a signed message\",".toList ++
    "\"exp\":\"2022-01-01T00:00:00+00:00\"\x7d".toList)

def vectorFooter : Bytes :=
  ascii "\x7b\"kid\":\"zVhMiPBP9fRf2snEcT7gFTioeA9COcNy9DfgL1W60haN\"\x7d".toList

def vectorSeed : Bytes := [
  0xb4,0xcb,0xfb,0x43,0xdf,0x4c,0xe2,0x10,0x72,0x7d,0x95,0x3e,0x4a,0x71,0x33,0x07,
  0xfa,0x19,0xbb,0x7d,0x9f,0x85,0x04,0x14,0x38,0xd9,0xe1,0x1b,0x94,0x2a,0x37,0x74]

def vectorKey : Bytes := [
  0x1e,0xb9,0xdb,0xbb,0xbc,0x04,0x7c,0x03,0xfd,0x70,0x60,0x4e,0x00,0x71,0xf0,0x98,
  0x7e,0x16,0xb2,0x8b,0x75,0x72,0x25,0xc1,0x1f,0x00,0x41,0x5d,0x0e,0x20,0xb1,0xa2]

def vectorSignature : Signature := ⟨[
  191,114,109,242,108,127,77,211,54,113,228,198,162,172,43,135,140,131,22,125,
  23,176,123,239,87,240,244,14,220,16,197,90,201,16,19,37,208,93,156,104,7,96,
  158,146,165,183,138,123,196,25,241,212,119,14,249,35,232,240,83,233,219,94,7,
  15],by decide⟩

def vectorPae : Except AntiForgeryError Bytes :=
  preAuthEncode [ascii pasetoV4PublicHeader,vectorPayload,vectorFooter,[]]

def vectorToken : Text :=
  "v4.public.eyJkYXRhIjoidGhpcyBpcyBh".toList ++ "IHNpZ25lZCBtZXNzYWdlIiwiZXhwIjoiMj".toList ++
  "AyMi0wMS0wMVQwMDowMDowMCswMDowMCJ9".toList ++ "v3Jt8mx_TdM2ceTGoqwrh4yDFn0XsHvvV_".toList ++
  "D0DtwQxVrJEBMl0F2caAdgnpKlt4p7xBnx".toList ++ "1HcO-SPo8FPp214HDw.eyJraWQiOiJ6Vmh".toList ++
  "NaVBCUDlmUmYyc25FY1Q3Z0ZUaW9lQTlDT".toList ++ "2NOeTlEZmdMMVc2MGhhTiJ9".toList

/- Ed25519 as far as the vector shows it: the one signature it fixes, and nothing real elsewhere. -/
def tableSignature (key msg : Bytes) : Signature :=
  if key=vectorKey ∧ .ok msg=vectorPae then vectorSignature
  else ⟨List.replicate 64 0,List.length_replicate⟩

def vectorEd25519 : Ed25519 Bytes Bytes where
  verifyingKey seed := if seed=vectorSeed then vectorKey else []
  sign seed msg := tableSignature (if seed=vectorSeed then vectorKey else []) msg
  verify key msg signature := signature=tableSignature key msg

theorem vectorEd25519_correct : vectorEd25519.Correct := by
  intro seed msg
  exact decide_eq_true rfl

theorem verify_issued_vector :
    issuePublicPayload vectorEd25519 urlSafeNoPad vectorSeed vectorPayload vectorFooter [] =
        .ok vectorToken ∧
      verifyPublicPayload vectorEd25519 urlSafeNoPad vectorKey vectorToken (some vectorFooter) [] =
        .ok vectorPayload := by
  have hissue : issuePublicPayload vectorEd25519 urlSafeNoPad vectorSeed vectorPayload vectorFooter
      [] = .ok vectorToken := by decide +kernel
  obtain ⟨token,htoken,hverify⟩ := verify_issued vectorEd25519 vectorEd25519_correct urlSafeNoPad
    urlSafeNoPad_exact vectorSeed vectorPayload vectorFooter [] (by decide +kernel)
    (by decide +kernel)
  have heq : token=vectorToken := Except.ok.inj (htoken.symm.trans hissue)
  rw [heq] at hverify
  exact ⟨hissue,hverify (some vectorFooter) (.inr rfl)⟩

end AetherX.Token
