import AetherX.SubscriptionClaims

/-! The gRPC service that signs claims and reports on them: issuing with its audit record, and the
flags a verified token is served with. -/
namespace AetherX.AntiForgeryServer
open Merkle (Bytes indexed)
open Sha256 (Digest)
open Audit (AuditLog Record)
open CheckedInt (Build Panic Fits)
open Token SubscriptionClaims

structure Service (SigningKey VerifyingKey : Type) where
  ed : Ed25519 SigningKey VerifyingKey
  engine : Engine
  codec : JsonCodec
  sha256 : Bytes → Digest

structure Service.Sound {SigningKey VerifyingKey : Type} (svc : Service SigningKey VerifyingKey) :
    Prop where
  signatures : svc.ed.Correct
  base64 : svc.engine.Exact
  json : svc.codec.RoundTrip

structure State (SigningKey : Type) where
  signer : SigningKey
  audit : AuditLog

def State.new {SigningKey : Type} (signer : SigningKey) : State SigningKey := ⟨signer,AuditLog.new⟩

structure IssueTokenRequest where
  subscriptionId : String
  userId : String
  bytesTotal : Int64
  bytesUsed : Int64
  expiresUnix : Int64

structure IssueTokenResponse (VerifyingKey : Type) where
  token : Text
  auditSeq : Int64
  auditHash : Digest
  verifyingKey : VerifyingKey

structure VerifyTokenRequest where
  token : Text
  nowUnix : Int64

structure VerifyTokenResponse where
  signatureValid : Bool
  expired : Bool
  quotaExhausted : Bool
  isLive : Bool
  claims : Option Claims

inductive Status where
  | invalidArgument (text : String)
  | internal (text : String) (cause : ClaimsError)

section
variable {SigningKey VerifyingKey : Type} (svc : Service SigningKey VerifyingKey)

def IssueTokenRequest.claims (r : IssueTokenRequest) (now : Int64) (uuid : String) : Claims :=
  ⟨r.subscriptionId,r.userId,r.bytesTotal,r.bytesUsed,r.expiresUnix,now,uuid⟩

/- The clock and the random id are given to it. Only a slice index can panic. -/
def issueToken (st : State SigningKey) (now : Int64) (uuid : String) (r : IssueTokenRequest) :
    Except Merkle.Panic (State SigningKey × Except Status (IssueTokenResponse VerifyingKey)) :=
  if r.subscriptionId = "" then .ok (st, .error (.invalidArgument "subscription_id is required"))
  else
    let claims := r.claims now uuid
    match issue svc.ed svc.engine svc.codec st.signer claims with
    | .error e => .ok (st, .error (.internal "issue failed: " e))
    | .ok token =>
      match svc.codec.toVec claims with
      | .error text => .ok (st, .error (.internal "serialize claims: " (.json text)))
      | .ok payload => do
        let (log, seq) := st.audit.append svc.sha256 payload
        let record ← indexed log.records seq.toNat
        .ok ({ st with audit := log },
          .ok ⟨token,seq.toInt64,record.hash,svc.ed.verifyingKey st.signer⟩)

def verifyToken (build : Build) (st : State SigningKey) (r : VerifyTokenRequest) :
    Except Panic VerifyTokenResponse :=
  match verify svc.ed svc.engine svc.codec (svc.ed.verifyingKey st.signer) r.token with
  | .error _ => .ok ⟨false,false,false,false,none⟩
  | .ok claims => do
    let expired := claims.isExpired r.nowUnix
    let left ← claims.bytesRemaining build
    let quotaExhausted := left≤0
    let isLive ← claims.isLive build r.nowUnix
    .ok ⟨true,expired,quotaExhausted,isLive,some claims⟩
end

variable {SigningKey VerifyingKey : Type} {svc : Service SigningKey VerifyingKey}
  {st st' : State SigningKey} {now : Int64} {uuid : String} {r : IssueTokenRequest}
  {resp : IssueTokenResponse VerifyingKey}

/-- What a granted request has done: the claims are signed under a key that stays. -/
theorem issueToken_granted (h : issueToken svc st now uuid r = .ok (st', .ok resp)) :
    issue svc.ed svc.engine svc.codec st.signer (r.claims now uuid) = .ok resp.token ∧
      st'.signer=st.signer := by
  by_cases hempty : r.subscriptionId = ""
  · rw [issueToken,if_pos hempty] at h
    cases h
  rw [issueToken,if_neg hempty] at h
  cases hissue : issue svc.ed svc.engine svc.codec st.signer (r.claims now uuid) with
  | error e =>
    simp only [hissue] at h
    cases h
  | ok token =>
    cases hvec : svc.codec.toVec (r.claims now uuid) with
    | error text =>
      simp only [hissue,hvec] at h
      cases h
    | ok payload =>
      simp only [hissue,hvec] at h
      obtain ⟨record,-,h⟩ := Machine.bind_eq_ok.mp h
      cases h
      exact ⟨rfl,rfl⟩

theorem issueToken_succeeds (svc : Service SigningKey VerifyingKey) {st : State SigningKey}
    {now : Int64} {uuid : String} {r : IssueTokenRequest} {payload : Bytes}
    (hid : r.subscriptionId ≠ "") (hvec : svc.codec.toVec (r.claims now uuid) = .ok payload)
    (hne : payload≠[]) (hlen : payload.length<2^64)
    (hlog : st.audit.records.length<2^64) :
    ∃ st' resp, issueToken svc st now uuid r = .ok (st', .ok resp) := by
  obtain ⟨token,htoken⟩ := issue_succeeds svc.ed svc.engine st.signer hvec hne hlen
  have hseq : (UInt64.ofNat st.audit.records.length).toNat=st.audit.records.length := by
    rw [UInt64.toNat_ofNat',Nat.mod_eq_of_lt hlog]
  simp only [issueToken,if_neg hid,htoken,hvec,AuditLog.append,indexed,hseq]
  rw [List.getElem?_concat_length]
  exact ⟨_,_,rfl⟩

theorem verifyToken_issued (hsvc : svc.Sound)
    (h : issueToken svc st now uuid r = .ok (st', .ok resp)) (build : Build) (time : Int64) :
    verifyToken svc build st' ⟨resp.token,time⟩=(do
      let left ← (r.claims now uuid).bytesRemaining build
      let isLive ← (r.claims now uuid).isLive build time
      .ok ⟨true,(r.claims now uuid).isExpired time,left≤0,isLive,some (r.claims now uuid)⟩) := by
  obtain ⟨hissue,hsigner⟩ := issueToken_granted h
  rw [verifyToken,hsigner,verify_of_issue hsvc.signatures hsvc.base64 hsvc.json hissue]

theorem isLive_of_remaining {build : Build} {c : Claims} {left time : Int64}
    (h : c.bytesRemaining build = .ok left) :
    c.isLive build time = .ok (!c.isExpired time && decide (0 < left.toInt)) := by
  have hpos : decide (left > 0)=decide (0 < left.toInt) := by
    rw [decide_eq_decide,gt_iff_lt,Int64.lt_iff_toInt_lt,CheckedInt.toInt_zero]
  rw [Claims.isLive,h]
  cases c.isExpired time with
  | true => rfl
  | false => exact congrArg Except.ok hpos

/-- The flags are right in a build exactly if the quota that is left, as an integer, is an i64:
a build with checks panics otherwise, one without reports the quota the wrong way round. -/
theorem served_flags_iff (svc : Service SigningKey VerifyingKey) (hsvc : svc.Sound)
    (st st' : State SigningKey) (now : Int64) (uuid : String) (r : IssueTokenRequest)
    (resp : IssueTokenResponse VerifyingKey)
    (h : issueToken svc st now uuid r = .ok (st', .ok resp)) (build : Build) (time : Int64) :
    (∃ v, verifyToken svc build st' ⟨resp.token,time⟩ = .ok v ∧
      (v.isLive=true ↔ time.toInt < r.expiresUnix.toInt ∧ r.bytesUsed.toInt < r.bytesTotal.toInt) ∧
      (v.quotaExhausted=true ↔ r.bytesTotal.toInt ≤ r.bytesUsed.toInt)) ↔
    Fits (r.bytesTotal.toInt-r.bytesUsed.toInt) := by
  rw [verifyToken_issued hsvc h]
  have hquota : (r.claims now uuid).quota=r.bytesTotal.toInt-r.bytesUsed.toInt := rfl
  have hexpired : (r.claims now uuid).isExpired time=true ↔ r.expiresUnix.toInt ≤ time.toInt :=
    isExpired_iff
  have hcases := bytesRemaining_cases build (r.claims now uuid)
  rw [hquota] at hcases
  cases hcases with
  | inl hfits =>
    obtain ⟨hfits,left,hleft,hsign⟩ := hfits
    refine iff_of_true ⟨_,by rw [hleft,isLive_of_remaining hleft]; rfl,?_,?_⟩ hfits
    · simp only [Bool.and_eq_true,Bool.not_eq_true',decide_eq_true_eq,hsign]
      rw [← Bool.not_eq_true,hexpired]
      omega
    · simp only [decide_eq_true_eq,Int64.le_iff_toInt_le]
      rw [CheckedInt.toInt_zero]
      omega
  | inr hwrong =>
    obtain ⟨hfits,hwrong⟩ := hwrong
    refine iff_of_false ?_ hfits
    intro hright
    obtain ⟨v,hv,-,hexhausted⟩ := hright
    cases hwrong with
    | inl hdebug =>
      rw [hdebug.2] at hv
      cases hv
    | inr hrelease =>
      obtain ⟨-,left,hleft,hsign⟩ := hrelease
      rw [hleft,isLive_of_remaining hleft] at hv
      cases hv
      simp only [decide_eq_true_eq,Int64.le_iff_toInt_le] at hexhausted
      rw [CheckedInt.toInt_zero] at hexhausted
      omega

def vectorService (only : Claims) : Service Bytes Bytes :=
  ⟨vectorEd25519,urlSafeNoPad,onlyCodec only,Sha256.sha256⟩

theorem vectorService_sound (only : Claims) : (vectorService only).Sound where
  signatures := vectorEd25519_correct
  base64 := urlSafeNoPad_exact
  json := onlyCodec_roundTrip only

theorem vectorService_issues (r : IssueTokenRequest) (hid : r.subscriptionId ≠ "") :
    ∃ st' resp, issueToken (vectorService (r.claims 0 "n")) (State.new vectorSeed) 0 "n" r =
      .ok (st', .ok resp) :=
  issueToken_succeeds _ hid (onlyCodec_toVec _) (by decide) (by decide) (by decide)

/- A token with 60 of 100 bytes left, forty seconds before it expires. -/
theorem served_flags_iff_live : ∃ st' resp v,
    issueToken (vectorService ⟨"s", "u",100,40,50,0, "n"⟩) (State.new vectorSeed) 0 "n"
      ⟨"s", "u",100,40,50⟩ = .ok (st', .ok resp) ∧
    verifyToken (vectorService ⟨"s", "u",100,40,50,0, "n"⟩) .debug st' ⟨resp.token,10⟩ = .ok v ∧
    v.isLive=true ∧ ¬ v.quotaExhausted=true := by
  obtain ⟨st',resp,hissue⟩ := vectorService_issues ⟨"s", "u",100,40,50⟩ (by decide)
  obtain ⟨v,hv,hlive,hquota⟩ := (served_flags_iff _ (vectorService_sound _) _ st' 0 "n" _ resp
    hissue .debug 10).mpr (by decide)
  exact ⟨st',resp,v,hissue,hv,hlive.mpr (by decide),by rw [hquota]; decide⟩

/-- A negative usage beside the largest total: a build with checks panics, and one without calls
the quota exhausted and the token dead. -/
theorem served_flags_overflow :
    (¬ ∀ (svc : Service Bytes Bytes), svc.Sound → ∀ st st' now uuid r resp time,
      issueToken svc st now uuid r = .ok (st', .ok resp) →
      ∃ v, verifyToken svc .debug st' ⟨resp.token,time⟩ = .ok v) ∧
    (¬ ∀ (svc : Service Bytes Bytes), svc.Sound → ∀ st st' now uuid r resp time v,
      issueToken svc st now uuid r = .ok (st', .ok resp) →
      verifyToken svc .release st' ⟨resp.token,time⟩ = .ok v →
      (v.isLive=true ↔
        time.toInt < r.expiresUnix.toInt ∧ r.bytesUsed.toInt < r.bytesTotal.toInt)) ∧
    ¬ ∀ (svc : Service Bytes Bytes), svc.Sound → ∀ st st' now uuid r resp time v,
      issueToken svc st now uuid r = .ok (st', .ok resp) →
      verifyToken svc .release st' ⟨resp.token,time⟩ = .ok v →
      (v.quotaExhausted=true ↔ r.bytesTotal.toInt ≤ r.bytesUsed.toInt) := by
  let r : IssueTokenRequest := ⟨"s", "u",Int64.maxValue,-1,100⟩
  obtain ⟨st',resp,hissue⟩ := vectorService_issues r (by decide)
  have hsound := vectorService_sound (r.claims 0 "n")
  have hverify := verifyToken_issued hsound hissue
  refine ⟨fun hall => ?_,fun hall => ?_,fun hall => ?_⟩
  · obtain ⟨v,hv⟩ := hall _ hsound _ st' 0 "n" r resp 0 hissue
    have hpanic : (r.claims 0 "n").bytesRemaining .debug = .error .overflow := by decide
    rw [hverify,hpanic] at hv
    cases hv
  · have hlive := hall _ hsound _ st' 0 "n" r resp 0 _ hissue (hverify .release 0)
    exact absurd (hlive.mpr (by decide)) (by decide)
  · have hquota := hall _ hsound _ st' 0 "n" r resp 0 _ hissue (hverify .release 0)
    exact absurd (hquota.mp (by decide)) (by decide)

end AetherX.AntiForgeryServer
