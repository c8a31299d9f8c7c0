import AetherX.CheckedInt
import AetherX.TokenContext

/-! The claims of a subscription token: what they say about quota and expiry in 64-bit arithmetic,
and how they are signed and read back. -/
namespace AetherX.SubscriptionClaims
open Merkle (Bytes)
open CheckedInt (Build Panic Fits)
open Token

structure Claims where
  subscriptionId : String
  userId : String
  bytesTotal : Int64
  bytesUsed : Int64
  expiresUnix : Int64
  issuedUnix : Int64
  nonce : String
  deriving DecidableEq

def Claims.bytesRemaining (build : Build) (c : Claims) : Except Panic Int64 := do
  let left ← CheckedInt.sub build c.bytesTotal c.bytesUsed
  .ok (max left 0)

def Claims.isExpired (c : Claims) (nowUnix : Int64) : Bool := nowUnix ≥ c.expiresUnix

/- The quota is looked at only if the token has not expired. -/
def Claims.isLive (build : Build) (c : Claims) (nowUnix : Int64) : Except Panic Bool :=
  if c.isExpired nowUnix then .ok false
  else do
    let left ← c.bytesRemaining build
    .ok (left > 0)

/- serde_json on claims; an error is its text. -/
structure JsonCodec where
  toVec : Claims → Except String Bytes
  fromSlice : Bytes → Except String Claims

def JsonCodec.RoundTrip (codec : JsonCodec) : Prop :=
  ∀ claims bytes, codec.toVec claims = .ok bytes → codec.fromSlice bytes = .ok claims

inductive ClaimsError where
  | token (error : AntiForgeryError)
  | json (text : String)
  deriving DecidableEq

section
variable {SigningKey VerifyingKey : Type} (ed : Ed25519 SigningKey VerifyingKey) (engine : Engine)
  (codec : JsonCodec)

def issue (signingKey : SigningKey) (claims : Claims) : Except ClaimsError Text := do
  let payload ← (codec.toVec claims).mapError ClaimsError.json
  (issuePublicPayload ed engine signingKey payload [] []).mapError ClaimsError.token

def verify (verifyingKey : VerifyingKey) (token : Text) : Except ClaimsError Claims := do
  let payload ← (verifyPublicPayload ed engine verifyingKey token none []).mapError
    ClaimsError.token
  (codec.fromSlice payload).mapError ClaimsError.json
end

section
variable {c : Claims} {now : Int64}

def Claims.quota (c : Claims) : Int := c.bytesTotal.toInt-c.bytesUsed.toInt

theorem isExpired_iff : c.isExpired now=true ↔ c.expiresUnix.toInt ≤ now.toInt := by
  rw [Claims.isExpired,decide_eq_true_iff,ge_iff_le,Int64.le_iff_toInt_le]

/-- Everything bytes_remaining can do. Where the difference does not fit, a build without checks
has its sign the wrong way round. -/
theorem bytesRemaining_cases (build : Build) (c : Claims) :
    (Fits c.quota ∧ ∃ left, c.bytesRemaining build = .ok left ∧ (0 < left.toInt ↔ 0 < c.quota)) ∨
    (¬ Fits c.quota ∧ ((build = .debug ∧ c.bytesRemaining build = .error .overflow) ∨
      (build = .release ∧ ∃ left, c.bytesRemaining build = .ok left ∧
        (0 < left.toInt ↔ ¬ 0 < c.quota)))) := by
  by_cases h : Fits c.quota
  · refine .inl ⟨h,max (c.bytesTotal-c.bytesUsed) 0,?_,?_⟩
    · rw [Claims.bytesRemaining,CheckedInt.sub_of_fits build h]
      rfl
    · rw [CheckedInt.toInt_max,CheckedInt.toInt_sub h,CheckedInt.toInt_zero,Claims.quota]
      omega
  · refine .inr ⟨h,?_⟩
    cases build with
    | debug =>
      refine .inl ⟨rfl,?_⟩
      rw [Claims.bytesRemaining,CheckedInt.sub_debug_of_not_fits h]
      rfl
    | release =>
      refine .inr ⟨rfl,max (c.bytesTotal-c.bytesUsed) 0,rfl,?_⟩
      have htotal := CheckedInt.fits_toInt c.bytesTotal
      have hused := CheckedInt.fits_toInt c.bytesUsed
      rw [CheckedInt.toInt_max,Int64.toInt_sub,CheckedInt.toInt_zero,Int.bmod_def]
      simp only [Claims.quota,Fits] at h htotal hused ⊢
      omega
end

section
variable {SigningKey VerifyingKey : Type} {ed : Ed25519 SigningKey VerifyingKey} {engine : Engine}
  {codec : JsonCodec}

/-- A bare token that was issued verifies and yields its payload. -/
theorem verifyPublicPayload_issued (hed : ed.Correct) (hengine : engine.Exact) {key : SigningKey}
    {payload : Bytes} {token : Text} (h : issuePublicPayload ed engine key payload [] [] = .ok token) :
    verifyPublicPayload ed engine (ed.verifyingKey key) token none [] = .ok payload := by
  by_cases hne : payload=[]
  · rw [issuePublicPayload,if_pos hne] at h
    cases h
  rw [issuePublicPayload,if_neg hne] at h
  obtain ⟨pae,hpae,h⟩ := Machine.bind_eq_ok.mp h
  rw [if_pos rfl] at h
  cases h
  exact verifyPublicPayload_signed hed key hpae (splitPublicToken_bare hengine _) (.inl rfl)

theorem verify_of_issue (hed : ed.Correct) (hengine : engine.Exact) (hcodec : codec.RoundTrip)
    {key : SigningKey} {claims : Claims} {token : Text}
    (h : issue ed engine codec key claims = .ok token) :
    verify ed engine codec (ed.verifyingKey key) token = .ok claims := by
  obtain ⟨payload,hpayload,h⟩ := Machine.bind_eq_ok.mp h
  cases hvec : codec.toVec claims with
  | error text =>
    rw [hvec] at hpayload
    cases hpayload
  | ok bytes =>
    rw [hvec] at hpayload
    cases hpayload
    cases htoken : issuePublicPayload ed engine key payload [] [] with
    | error e =>
      rw [htoken] at h
      cases h
    | ok issued =>
      rw [htoken] at h
      cases h
      rw [verify,verifyPublicPayload_issued hed hengine htoken]
      change (codec.fromSlice payload).mapError ClaimsError.json=_
      rw [hcodec claims payload hvec]
      rfl

/-- Nothing in the claims keeps them from being signed. -/
theorem issue_succeeds (ed : Ed25519 SigningKey VerifyingKey) (engine : Engine) (key : SigningKey)
    {claims : Claims} {payload : Bytes} (hvec : codec.toVec claims = .ok payload)
    (hne : payload≠[]) (hlen : payload.length<2^64) :
    ∃ token, issue ed engine codec key claims = .ok token := by
  obtain ⟨pae,hpae⟩ := preAuthEncode_ok [ascii pasetoV4PublicHeader,payload,[],[]] (by simp)
    (by
      simp only [List.forall_mem_cons,List.not_mem_nil,false_imp_iff,implies_true,and_true]
      exact ⟨by decide,hlen,by decide,by decide⟩)
  refine ⟨pasetoV4PublicHeader++engine.encode (payload++(ed.sign key pae).bytes),?_⟩
  rw [issue,hvec]
  change (issuePublicPayload ed engine key payload [] []).mapError ClaimsError.token=_
  rw [issuePublicPayload,if_neg hne,hpae]
  rfl
end

/- A codec for the claims at hand and no others. -/
def onlyCodec (only : Claims) : JsonCodec where
  toVec c := if c = only then .ok [1] else .error "other claims"
  fromSlice bytes := if bytes=[1] then .ok only else .error "other bytes"

theorem onlyCodec_toVec (only : Claims) : (onlyCodec only).toVec only = .ok [1] := if_pos rfl

theorem onlyCodec_roundTrip (only : Claims) : (onlyCodec only).RoundTrip := by
  intro claims bytes h
  by_cases hc : claims = only
  · have hbytes : [1]=bytes := by simpa [onlyCodec,hc] using h
    rw [← hbytes,hc]
    rfl
  · simp [onlyCodec,hc] at h

end AetherX.SubscriptionClaims
