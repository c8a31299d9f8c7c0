import AetherX.AuditBinding
import AetherX.Machine
import AetherX.Token

/-! What a signature on a public token commits to. The encoding that is signed counts its pieces
and puts every length in front, so it can be read in one way only. -/
namespace AetherX.TokenContext
open Merkle (Bytes)
open Audit AuditBinding Framing Token
open Machine (bind_eq_ok)

def lengthCode (len : Nat) : Bytes := toLeBytes (UInt64.ofNat len)

def pieceCode (piece : Bytes) : Bytes := lengthCode piece.length++piece

theorem selfDelimiting_lengthCode : SelfDelimiting {len | len<2^64} lengthCode := by
  refine selfDelimiting_of_width (fun len _ => length_toLeBytes _) ?_
  intro a ha b hb heq
  have hnat := congrArg UInt64.toNat (toLeBytes_injective heq)
  rwa [UInt64.toNat_ofNat',UInt64.toNat_ofNat',Nat.mod_eq_of_lt ha,Nat.mod_eq_of_lt hb] at hnat

theorem lengthBytes_eq_ok {len : Nat} {text : String} {out : Bytes} :
    lengthBytes len text = .ok out ↔ len<2^64 ∧ out=lengthCode len := by
  rw [lengthBytes]
  split_ifs with h
  · rw [Except.ok.injEq,eq_comm,lengthCode]
    exact (and_iff_right h).symm
  · exact iff_of_false (by rintro ⟨⟩) fun hlen => h hlen.1

variable {pieces : List Bytes}

theorem encodePieces_eq_ok {out : Bytes} :
    encodePieces pieces = .ok out ↔
      (∀ piece∈pieces, piece.length<2^64) ∧ out=pieces.flatMap pieceCode := by
  induction pieces generalizing out with
  | nil => simp [encodePieces,eq_comm]
  | cons piece rest ih =>
    rw [List.forall_mem_cons,List.flatMap_cons]
    simp only [encodePieces,bind_eq_ok,lengthBytes_eq_ok,ih]
    constructor
    · intro h
      obtain ⟨len,⟨hlen,rfl⟩,tail,⟨hrest,rfl⟩,heq⟩ := h
      exact ⟨⟨hlen,hrest⟩,(Except.ok.inj heq).symm⟩
    · intro h
      obtain ⟨⟨hlen,hrest⟩,rfl⟩ := h
      exact ⟨_,⟨hlen,rfl⟩,_,⟨hrest,rfl⟩,rfl⟩

theorem preAuthEncode_eq_ok {pae : Bytes} :
    preAuthEncode pieces = .ok pae ↔
      (pieces.length<2^64 ∧ ∀ piece∈pieces, piece.length<2^64) ∧
        pae=lengthCode pieces.length++pieces.flatMap pieceCode := by
  simp only [preAuthEncode,bind_eq_ok,lengthBytes_eq_ok,encodePieces_eq_ok]
  constructor
  · intro h
    obtain ⟨count,⟨hcount,rfl⟩,out,⟨hpieces,rfl⟩,heq⟩ := h
    exact ⟨⟨hcount,hpieces⟩,(Except.ok.inj heq).symm⟩
  · intro h
    obtain ⟨⟨hcount,hpieces⟩,rfl⟩ := h
    exact ⟨_,⟨hcount,rfl⟩,_,⟨hpieces,rfl⟩,rfl⟩

/-- Two lists of pieces with one encoding are one list. -/
theorem preAuthEncode_inj {others : List Bytes} {pae : Bytes} (h : preAuthEncode pieces = .ok pae)
    (h' : preAuthEncode others = .ok pae) : pieces = others := by
  obtain ⟨hgood,rfl⟩ := preAuthEncode_eq_ok.mp h
  obtain ⟨hgood',heq⟩ := preAuthEncode_eq_ok.mp h'
  have hcode := selfDelimiting_lengthCode.counted selfDelimiting_lengthCode.framed
  exact hcode.injOn hgood hgood' heq

section
variable {SigningKey VerifyingKey : Type} (ed : Ed25519 SigningKey VerifyingKey)

/-- The signature verifies on the encoding that verify_public_payload builds of this triple. -/
def SignedFor (key : VerifyingKey) (signature : Signature) (payload footer assertion : Bytes) :
    Prop :=
  ∃ pae, preAuthEncode [ascii pasetoV4PublicHeader,payload,footer,assertion] = .ok pae ∧
    ed.verify key pae signature=true

/- Ed25519 as far as binding needs it. -/
def OneMessage : Prop :=
  ∀ key msg msg' signature, ed.verify key msg signature=true →
    ed.verify key msg' signature=true → msg=msg'

/-- What an accepted token looks like: the payload in front of its signature. -/
theorem signedFor_of_verify {engine : Engine} {key : VerifyingKey} {token : Text}
    {expected : Option Bytes} {payload assertion : Bytes}
    (h : verifyPublicPayload ed engine key token expected assertion = .ok payload) :
    ∃ footer signature, splitPublicToken engine token = .ok (payload++signature.bytes, footer) ∧
      (∀ e, expected=some e → footer=e) ∧
      SignedFor ed key signature payload footer assertion := by
  obtain ⟨⟨message,footer⟩,hsplit,h⟩ := bind_eq_ok.mp h
  dsimp only at h
  split_ifs at h with hfooter hlen
  obtain ⟨pae,hpae,h⟩ := bind_eq_ok.mp h
  split_ifs at h with hverify
  cases h
  refine ⟨footer,_,?_,?_,pae,hpae,hverify⟩
  · rw [List.take_append_drop]
    exact hsplit
  · intro e he
    simpa [he] using hfooter

theorem signature_eq {payload : Bytes} {a b : Signature}
    (h : payload++a.bytes=payload++b.bytes) : a=b := by
  cases a
  cases b
  simpa using h

/-- One signature is for one triple, on a token as anywhere else: the pieces of the signed encoding
can be read back, however many there are and whatever their lengths. -/
theorem signature_binds_context (hone : OneMessage ed) :
    (∀ key signature payload footer assertion payload' footer' assertion',
      SignedFor ed key signature payload footer assertion →
      SignedFor ed key signature payload' footer' assertion' →
      payload=payload' ∧ footer=footer' ∧ assertion=assertion') ∧
    (∀ engine key token token' expected expected' assertion assertion' (signature : Signature)
        payload payload' footer footer',
      splitPublicToken engine token = .ok (payload++signature.bytes, footer) →
      splitPublicToken engine token' = .ok (payload'++signature.bytes, footer') →
      verifyPublicPayload ed engine key token expected assertion = .ok payload →
      verifyPublicPayload ed engine key token' expected' assertion' = .ok payload' →
      payload=payload' ∧ footer=footer' ∧ assertion=assertion') ∧
    ∀ (pieces pieces' : List Bytes) (pae : Bytes), preAuthEncode pieces = .ok pae →
      preAuthEncode pieces' = .ok pae → pieces=pieces' := by
  have htriple : ∀ key signature payload footer assertion payload' footer' assertion',
      SignedFor ed key signature payload footer assertion →
      SignedFor ed key signature payload' footer' assertion' →
      payload=payload' ∧ footer=footer' ∧ assertion=assertion' := by
    intro key signature payload footer assertion payload' footer' assertion' h h'
    obtain ⟨pae,hpae,hverify⟩ := h
    obtain ⟨pae',hpae',hverify'⟩ := h'
    obtain rfl := hone key pae pae' signature hverify hverify'
    simpa using preAuthEncode_inj hpae hpae'
  refine ⟨htriple,?_,fun pieces pieces' pae h h' => preAuthEncode_inj h h'⟩
  intro engine key token token' expected expected' assertion assertion' signature payload payload'
    footer footer' hsplit hsplit' h h'
  obtain ⟨f,sig,hs,-,hsigned⟩ := signedFor_of_verify ed h
  obtain ⟨f',sig',hs',-,hsigned'⟩ := signedFor_of_verify ed h'
  rw [hsplit,Except.ok.injEq,Prod.mk.injEq] at hs
  rw [hsplit',Except.ok.injEq,Prod.mk.injEq] at hs'
  rw [← signature_eq hs.1,← hs.2] at hsigned
  rw [← signature_eq hs'.1,← hs'.2] at hsigned'
  exact htriple key signature payload footer assertion payload' footer' assertion' hsigned hsigned'
end

/- A key that has signed the encoding of the crate's test vector and nothing else. -/
def oneMessageEd25519 : Ed25519 Bytes Bytes :=
  { vectorEd25519 with
    verify := fun key msg signature =>
      key=vectorKey ∧ .ok msg=vectorPae ∧ signature=vectorSignature }

theorem oneMessage_vector : OneMessage oneMessageEd25519 := by
  intro key msg msg' signature h h'
  have hmsg := (of_decide_eq_true h).2.1
  have hmsg' := (of_decide_eq_true h').2.1
  exact Except.ok.inj (hmsg.trans hmsg'.symm)

theorem signature_binds_context_vector :
    SignedFor oneMessageEd25519 vectorKey vectorSignature vectorPayload vectorFooter [] ∧
    ∀ payload footer assertion,
      SignedFor oneMessageEd25519 vectorKey vectorSignature payload footer assertion →
      payload=vectorPayload ∧ footer=vectorFooter ∧ assertion=[] := by
  have hsigned : SignedFor oneMessageEd25519 vectorKey vectorSignature vectorPayload vectorFooter
      [] := by
    obtain ⟨pae,hpae⟩ := preAuthEncode_ok [ascii pasetoV4PublicHeader,vectorPayload,
      vectorFooter,[]] (by decide) (by decide +kernel)
    exact ⟨pae,hpae,decide_eq_true ⟨rfl,hpae.symm,rfl⟩⟩
  refine ⟨hsigned,fun payload footer assertion h => ?_⟩
  exact (signature_binds_context oneMessageEd25519 oneMessage_vector).1 vectorKey vectorSignature
    payload footer assertion vectorPayload vectorFooter [] h hsigned

end AetherX.TokenContext
