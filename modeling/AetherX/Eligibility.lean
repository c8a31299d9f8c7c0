import AetherX.Pedersen
import AetherX.SubscriptionClaims
import Mathlib.Algebra.Module.Prod

/-! Eligibility proofs: an issuer registers commitments to the expiry of verified tokens, and a
prover shows that a registered expiry lies after the verifier's time. -/
namespace AetherX.Eligibility
open CheckedInt (Build Panic)
open Token (Text Ed25519 Engine)
open SubscriptionClaims (Claims JsonCodec)
open Pedersen

inductive EligibilityProofError where
  | pasetoVerificationFailed
  | ineligiblePaseto
  | invalidTime
  | invalidExpiration
  | expired
  | invalidCommitmentEncoding
  | commitmentMismatch
  | proofCreationFailed
  | timeContextMismatch
  | unknownOrRevokedCredential
  | proofVerificationFailed
  deriving DecidableEq

abbrev Outcome := Except EligibilityProofError

inductive Message (C : Type) where
  | commitment (label : String) (bytes : C)
  | number (label : String) (n : UInt64)

structure Transcript (C : Type) where
  domain : String
  messages : List (Message C)

def transcript {C : Type} (commitment : C) (nowUnix : UInt64) : Transcript C :=
  ⟨"AETHER-X/registered-paseto-expiry/v1",
    [.commitment "credential-expiry-commitment" commitment,.number "verifier-now-unix" nowUnix]⟩

/- The libraries: the curve with its encoding, the range proofs and the verifier of tokens. -/
structure Crypto (q : Nat) (G C P SigningKey VerifyingKey : Type) where
  gens : Generators q G
  encoding : Encoding G C
  proofs : RangeProofs q (Transcript C) C P
  ed : Ed25519 SigningKey VerifyingKey
  engine : Engine
  codec : JsonCodec

structure EligibilityCredential (q : Nat) (C : Type) where
  commitment : C
  expiresUnix : UInt64
  blinding : ZMod q

structure ExpiryProof (C P : Type) where
  commitment : C
  nowUnix : UInt64
  proof : P

structure EligibilityRegistry (C : Type) where
  active : Finset C

def EligibilityRegistry.new {C : Type} : EligibilityRegistry C := ⟨∅⟩

def checkedAdd (a b : UInt64) : Option UInt64 :=
  if a.toNat+b.toNat<2^64 then some (a+b) else none

def checkedSub (a b : UInt64) : Option UInt64 := if b ≤ a then some (a-b) else none

def okOr {α : Type} (error : EligibilityProofError) : Option α → Outcome α
  | some a => .ok a
  | none => .error error

def expiryDelta (expiresUnix nowUnix : UInt64) : Outcome UInt64 := do
  let threshold ← okOr .invalidTime (checkedAdd nowUnix 1)
  okOr .expired (checkedSub expiresUnix threshold)

section
variable {q : Nat} {G C P SigningKey VerifyingKey : Type} [AddCommGroup G] [Module (ZMod q) G]
  [DecidableEq C] (crypto : Crypto q G C P SigningKey VerifyingKey)

/- A commitment that names a point is handed on as it is, and decompressed once more. -/
def shiftedCommitmentFor (commitment : C) (nowUnix : UInt64) : Outcome C := do
  let threshold ← okOr .invalidTime (checkedAdd nowUnix 1)
  let _ ← okOr .invalidCommitmentEncoding (crypto.encoding.decompress commitment)
  let point ← okOr .invalidCommitmentEncoding (crypto.encoding.decompress commitment)
  .ok (crypto.encoding.compress (point-(threshold.toNat : ZMod q) • crypto.gens.base))

def EligibilityCredential.proveUnexpired (cred : EligibilityCredential q C) (nowUnix : UInt64) :
    Outcome (ExpiryProof C P) := do
  let delta ← expiryDelta cred.expiresUnix nowUnix
  let (proof, shifted) ← okOr .proofCreationFailed
    (crypto.proofs.proveSingle (transcript cred.commitment nowUnix) delta cred.blinding)
  let expected ← shiftedCommitmentFor crypto cred.commitment nowUnix
  if shifted≠expected then .error .commitmentMismatch
  else .ok ⟨cred.commitment,nowUnix,proof⟩

def EligibilityRegistry.verifyUnexpired (reg : EligibilityRegistry C) (proof : ExpiryProof C P)
    (nowUnix : UInt64) : Outcome Unit :=
  if proof.nowUnix≠nowUnix then .error .timeContextMismatch
  else if proof.commitment∉reg.active then .error .unknownOrRevokedCredential
  else do
    let shifted ← shiftedCommitmentFor crypto proof.commitment nowUnix
    if crypto.proofs.verifySingle proof.proof (transcript proof.commitment nowUnix) shifted then
      .ok ()
    else .error .proofVerificationFailed

def EligibilityRegistry.revoke (reg : EligibilityRegistry C) (commitment : C) :
    EligibilityRegistry C × Bool :=
  (⟨reg.active.erase commitment⟩, commitment∈reg.active)

/- The random blinding is given to it. -/
def EligibilityRegistry.registerVerifiedClaims (reg : EligibilityRegistry C) (claims : Claims)
    (blinding : ZMod q) : EligibilityRegistry C × Outcome (EligibilityCredential q C) :=
  if claims.expiresUnix<0 then (reg, .error .invalidExpiration)
  else
    let expiresUnix := claims.expiresUnix.toUInt64
    let commitment := crypto.encoding.compress
      (crypto.gens.commit (expiresUnix.toNat : ZMod q) blinding)
    (⟨insert commitment reg.active⟩, .ok ⟨commitment,expiresUnix,blinding⟩)

def EligibilityRegistry.registerVerifiedPaseto (build : Build) (reg : EligibilityRegistry C)
    (verifyingKey : VerifyingKey) (paseto : Text) (nowUnix : UInt64) (blinding : ZMod q) :
    EligibilityRegistry C × Except Panic (Outcome (EligibilityCredential q C)) :=
  match SubscriptionClaims.verify crypto.ed crypto.engine crypto.codec verifyingKey paseto with
  | .error _ => (reg, .ok (.error .pasetoVerificationFailed))
  | .ok claims =>
    if 2^63 ≤ nowUnix.toNat then (reg, .ok (.error .invalidTime))
    else
      match claims.isLive build nowUnix.toInt64 with
      | .error panic => (reg, .error panic)
      | .ok false => (reg, .ok (.error .ineligiblePaseto))
      | .ok true =>
        let (reg, outcome) := reg.registerVerifiedClaims crypto claims blinding
        (reg, .ok outcome)

inductive Event (q : Nat) (C VerifyingKey : Type) where
  | register (verifyingKey : VerifyingKey) (paseto : Text) (nowUnix : UInt64) (blinding : ZMod q)
  | revoke (commitment : C)

structure History (q : Nat) (C : Type) where
  registry : EligibilityRegistry C
  issued : List (EligibilityCredential q C)

def History.next (build : Build) (h : History q C) : Event q C VerifyingKey → History q C
  | .register verifyingKey paseto nowUnix blinding =>
    match h.registry.registerVerifiedPaseto crypto build verifyingKey paseto nowUnix blinding with
    | (reg, .ok (.ok cred)) => ⟨reg,h.issued++[cred]⟩
    | (reg, _) => ⟨reg,h.issued⟩
  | .revoke commitment => ⟨(h.registry.revoke commitment).1,h.issued⟩

def history (build : Build) (events : List (Event q C VerifyingKey)) : History q C :=
  events.foldl (History.next crypto build) ⟨EligibilityRegistry.new,[]⟩
end

variable {q : Nat} {G C P SigningKey VerifyingKey : Type} [AddCommGroup G] [Module (ZMod q) G]
  {crypto : Crypto q G C P SigningKey VerifyingKey}

def EligibilityCredential.Opens (crypto : Crypto q G C P SigningKey VerifyingKey)
    (cred : EligibilityCredential q C) : Prop :=
  cred.commitment=crypto.encoding.compress
    (crypto.gens.commit (cred.expiresUnix.toNat : ZMod q) cred.blinding)

section
variable [DecidableEq C]

def credentialFor (crypto : Crypto q G C P SigningKey VerifyingKey) (claims : Claims)
    (blinding : ZMod q) : EligibilityCredential q C :=
  ⟨crypto.encoding.compress
    (crypto.gens.commit (claims.expiresUnix.toUInt64.toNat : ZMod q) blinding),
    claims.expiresUnix.toUInt64,blinding⟩

section
variable {build : Build} {reg : EligibilityRegistry C} {verifyingKey : VerifyingKey} {paseto : Text}
  {nowUnix : UInt64} {blinding : ZMod q} {claims : Claims}

theorem registerVerifiedPaseto_granted (hverify : SubscriptionClaims.verify crypto.ed crypto.engine
      crypto.codec verifyingKey paseto = .ok claims) (htime : ¬ 2^63 ≤ nowUnix.toNat)
    (hlive : claims.isLive build nowUnix.toInt64 = .ok true) (hexp : ¬ claims.expiresUnix<0) :
    reg.registerVerifiedPaseto crypto build verifyingKey paseto nowUnix blinding =
      (⟨insert (credentialFor crypto claims blinding).commitment reg.active⟩,
        .ok (.ok (credentialFor crypto claims blinding))) := by
  have hclaims : reg.registerVerifiedClaims crypto claims blinding =
      (⟨insert (credentialFor crypto claims blinding).commitment reg.active⟩,
        .ok (credentialFor crypto claims blinding)) := if_neg hexp
  simp only [EligibilityRegistry.registerVerifiedPaseto,hverify,if_neg htime,hlive,hclaims]
end

/-- Registration adds the commitment of a credential it hands out, or does nothing. -/
theorem registerVerifiedPaseto_cases (crypto : Crypto q G C P SigningKey VerifyingKey)
    (build : Build) (reg : EligibilityRegistry C) (verifyingKey : VerifyingKey) (paseto : Text)
    (nowUnix : UInt64) (blinding : ZMod q) :
    (∃ cred : EligibilityCredential q C, cred.Opens crypto ∧
      reg.registerVerifiedPaseto crypto build verifyingKey paseto nowUnix blinding =
        (⟨insert cred.commitment reg.active⟩, .ok (.ok cred))) ∨
    ((reg.registerVerifiedPaseto crypto build verifyingKey paseto nowUnix blinding).1=reg ∧
      ∀ cred, (reg.registerVerifiedPaseto crypto build verifyingKey paseto nowUnix blinding).2 ≠
        .ok (.ok cred)) := by
  cases hverify : SubscriptionClaims.verify crypto.ed crypto.engine crypto.codec verifyingKey
    paseto with
  | error e =>
    simp only [EligibilityRegistry.registerVerifiedPaseto,hverify]
    exact .inr ⟨trivial,by simp⟩
  | ok claims =>
    by_cases htime : 2^63 ≤ nowUnix.toNat
    · simp only [EligibilityRegistry.registerVerifiedPaseto,hverify,if_pos htime]
      exact .inr ⟨trivial,by simp⟩
    cases hlive : claims.isLive build nowUnix.toInt64 with
    | error panic =>
      simp only [EligibilityRegistry.registerVerifiedPaseto,hverify,if_neg htime,hlive]
      exact .inr ⟨trivial,by simp⟩
    | ok live =>
      cases live with
      | false =>
        simp only [EligibilityRegistry.registerVerifiedPaseto,hverify,if_neg htime,hlive]
        exact .inr ⟨trivial,by simp⟩
      | true =>
        by_cases hexp : claims.expiresUnix<0
        · have hclaims : reg.registerVerifiedClaims crypto claims blinding =
              (reg, .error .invalidExpiration) := if_pos hexp
          simp only [EligibilityRegistry.registerVerifiedPaseto,hverify,if_neg htime,hlive,
            hclaims]
          exact .inr ⟨trivial,by simp⟩
        · exact .inl ⟨credentialFor crypto claims blinding,rfl,
            registerVerifiedPaseto_granted hverify htime hlive hexp⟩

/-- Every credential opens its commitment, and every active commitment is that of a credential. -/
structure Tracked (crypto : Crypto q G C P SigningKey VerifyingKey) (h : History q C) : Prop where
  opens : ∀ cred∈h.issued, cred.Opens crypto
  issued : ∀ c∈h.registry.active, ∃ cred∈h.issued, cred.commitment=c

theorem Tracked.next {h : History q C} (ht : Tracked crypto h) (build : Build)
    (e : Event q C VerifyingKey) : Tracked crypto (h.next crypto build e) := by
  cases e with
  | register verifyingKey paseto nowUnix blinding =>
    cases registerVerifiedPaseto_cases crypto build h.registry verifyingKey paseto nowUnix
      blinding with
    | inl hgranted =>
      obtain ⟨cred,hopens,heq⟩ := hgranted
      simp only [History.next,heq]
      constructor
      · intro c hc
        cases List.mem_append.mp hc with
        | inl hold => exact ht.opens c hold
        | inr hnew => rwa [List.mem_singleton.mp hnew]
      · intro c hc
        cases Finset.mem_insert.mp hc with
        | inl hnew => exact ⟨cred,by simp,hnew.symm⟩
        | inr hold =>
          obtain ⟨cred',hmem,hcred⟩ := ht.issued c hold
          exact ⟨cred',List.mem_append_left _ hmem,hcred⟩
    | inr hrefused =>
      have hsame : h.next crypto build (.register verifyingKey paseto nowUnix blinding)=h := by
        simp only [History.next]
        split
        · next reg cred heq => exact absurd (congrArg Prod.snd heq) (hrefused.2 cred)
        · next reg outcome _ heq =>
          have hreg : reg=h.registry := (congrArg Prod.fst heq).symm.trans hrefused.1
          rw [hreg]
      rwa [hsame]
  | revoke commitment =>
    exact ⟨ht.opens,fun c hc => ht.issued c (Finset.mem_of_mem_erase hc)⟩

theorem tracked_history (crypto : Crypto q G C P SigningKey VerifyingKey) (build : Build)
    (events : List (Event q C VerifyingKey)) : Tracked crypto (history crypto build events) :=
  List.foldlRecOn events (History.next crypto build) ⟨by simp,by simp [EligibilityRegistry.new]⟩
    fun _ ht e _ => ht.next build e
end

section
theorem okOr_eq_ok {α : Type} {error : EligibilityProofError} {o : Option α} {a : α} :
    okOr error o = .ok a ↔ o=some a := by
  cases o <;> simp [okOr]

variable {now : UInt64}

theorem checkedAdd_one_eq_some {threshold : UInt64} :
    checkedAdd now 1=some threshold ↔ threshold.toNat=now.toNat+1 := by
  have hone : (1 : UInt64).toNat=1 := rfl
  have hlt := threshold.toNat_lt
  rw [checkedAdd,hone]
  split_ifs with h
  · rw [Option.some_inj,← UInt64.toNat_inj,UInt64.toNat_add,hone,Nat.mod_eq_of_lt h,eq_comm]
  · exact iff_of_false (by simp) (by omega)

/-- The difference that is proved to be a 64-bit number, as an equation of numbers. -/
theorem expiryDelta_eq_ok {expires delta : UInt64} :
    expiryDelta expires now = .ok delta ↔ expires.toNat=delta.toNat+now.toNat+1 := by
  simp only [expiryDelta,Machine.bind_eq_ok,okOr_eq_ok,checkedAdd_one_eq_some,checkedSub,
    Option.ite_none_right_eq_some,Option.some_inj]
  have hexp := expires.toNat_lt
  constructor
  · intro h
    obtain ⟨threshold,hthreshold,hle,hdelta⟩ := h
    have hnat := congrArg UInt64.toNat hdelta
    rw [UInt64.toNat_sub_of_le _ _ hle] at hnat
    rw [UInt64.le_iff_toNat_le] at hle
    omega
  · intro h
    have hthreshold : (UInt64.ofNat (now.toNat+1)).toNat=now.toNat+1 := by
      rw [UInt64.toNat_ofNat',Nat.mod_eq_of_lt (by omega)]
    have hle : UInt64.ofNat (now.toNat+1) ≤ expires := by
      rw [UInt64.le_iff_toNat_le,hthreshold]
      omega
    refine ⟨UInt64.ofNat (now.toNat+1),hthreshold,hle,?_⟩
    rw [← UInt64.toNat_inj,UInt64.toNat_sub_of_le _ _ hle,hthreshold]
    omega

/-- The shifted commitment holds the expiry less the threshold, modulo the order. -/
theorem shiftedCommitmentFor_eq_ok (henc : crypto.encoding.RoundTrip)
    {cred : EligibilityCredential q C} (hcred : cred.Opens crypto) {c : C} :
    shiftedCommitmentFor crypto cred.commitment now = .ok c ↔
      now.toNat+1<2^64 ∧ c=crypto.encoding.compress (crypto.gens.commit
        ((cred.expiresUnix.toNat : ZMod q)-((now.toNat+1 : Nat) : ZMod q)) cred.blinding) := by
  have hpoint := henc (crypto.gens.commit (cred.expiresUnix.toNat : ZMod q) cred.blinding)
  rw [← hcred] at hpoint
  simp only [shiftedCommitmentFor,Machine.bind_eq_ok,okOr_eq_ok,checkedAdd_one_eq_some,
    hpoint]
  constructor
  · intro h
    obtain ⟨threshold,hthreshold,_,_,point,hpoint',heq⟩ := h
    cases hpoint'
    have hlt := threshold.toNat_lt
    rw [hthreshold,Generators.commit_sub_smul] at heq
    exact ⟨by omega,(Except.ok.inj heq).symm⟩
  · intro h
    have hthreshold : (UInt64.ofNat (now.toNat+1)).toNat=now.toNat+1 := by
      rw [UInt64.toNat_ofNat',Nat.mod_eq_of_lt h.1]
    refine ⟨UInt64.ofNat (now.toNat+1),hthreshold,_,rfl,_,rfl,?_⟩
    rw [hthreshold,Generators.commit_sub_smul,h.2]

variable [DecidableEq C] {reg : EligibilityRegistry C} {cred : EligibilityCredential q C}
  {now : UInt64}

theorem cast_sub_cast {a b d : Nat} (h : a=d+b) : (a : ZMod q)-(b : ZMod q)=(d : ZMod q) := by
  rw [h,Nat.cast_add,add_sub_cancel_right]

/-- Before the expiry the prover's commitment is the shifted one, so a proof is made, and it is
accepted while the commitment is active. -/
theorem proof_accepted (henc : crypto.encoding.RoundTrip)
    (hcomplete : crypto.proofs.Complete crypto.gens crypto.encoding) (hcred : cred.Opens crypto)
    (hactive : cred.commitment∈reg.active) (hlt : now.toNat < cred.expiresUnix.toNat) :
    ∃ proof, cred.proveUnexpired crypto now = .ok proof ∧
      reg.verifyUnexpired crypto proof now = .ok () := by
  have hexp := cred.expiresUnix.toNat_lt
  have hdelta : (UInt64.ofNat (cred.expiresUnix.toNat-now.toNat-1)).toNat =
      cred.expiresUnix.toNat-now.toNat-1 := by
    rw [UInt64.toNat_ofNat',Nat.mod_eq_of_lt (by omega)]
  generalize UInt64.ofNat (cred.expiresUnix.toNat-now.toNat-1)=delta at hdelta
  obtain ⟨p,hprove,hverify⟩ := hcomplete (transcript cred.commitment now) delta cred.blinding
  have hshifted : shiftedCommitmentFor crypto cred.commitment now =
      .ok (crypto.encoding.compress (crypto.gens.commit (delta.toNat : ZMod q) cred.blinding)) := by
    rw [shiftedCommitmentFor_eq_ok henc hcred,cast_sub_cast (d := delta.toNat) (by omega)]
    exact ⟨by omega,rfl⟩
  refine ⟨⟨cred.commitment,now,p⟩,?_,?_⟩
  · rw [EligibilityCredential.proveUnexpired,
      expiryDelta_eq_ok.mpr (show cred.expiresUnix.toNat=delta.toNat+now.toNat+1 by omega)]
    simp only [bind,Except.bind,hprove,okOr,hshifted]
    rw [if_neg (not_not.mpr rfl)]
  · rw [EligibilityRegistry.verifyUnexpired,if_neg (not_not.mpr rfl),if_neg (not_not.mpr hactive),
      hshifted]
    exact if_pos hverify

variable {proof : ExpiryProof C P}

theorem commitment_of_proveUnexpired (h : cred.proveUnexpired crypto now = .ok proof) : proof.commitment=cred.commitment := by
  simp only [EligibilityCredential.proveUnexpired,Machine.bind_eq_ok] at h
  obtain ⟨delta,-,⟨p,shifted⟩,-,expected,-,h⟩ := h
  split_ifs at h
  cases h
  rfl

theorem verifyUnexpired_ok (h : reg.verifyUnexpired crypto proof now = .ok ()) :
    proof.commitment∈reg.active ∧ ∃ shifted,
      shiftedCommitmentFor crypto proof.commitment now = .ok shifted ∧
      crypto.proofs.verifySingle proof.proof (transcript proof.commitment now) shifted=true := by
  rw [EligibilityRegistry.verifyUnexpired] at h
  split_ifs at h with htime hactive
  obtain ⟨shifted,hshifted,h⟩ := Machine.bind_eq_ok.mp h
  split_ifs at h with hverify
  exact ⟨hactive,shifted,hshifted,hverify⟩

/-- A proof for a credential shows a 64-bit number below its expiry less the threshold. Expiry, time
and number stay below 2 ^ 65, so a difference below zero cannot look like one. -/
theorem lt_of_accepted (horder : 2^65 < q) (hbind : crypto.gens.Binding)
    (henc : crypto.encoding.RoundTrip) (hsound : crypto.proofs.Sound crypto.gens crypto.encoding)
    (hcred : cred.Opens crypto) (hproof : proof.commitment=cred.commitment)
    (h : reg.verifyUnexpired crypto proof now = .ok ()) : now.toNat < cred.expiresUnix.toNat := by
  obtain ⟨-,shifted,hshifted,hverify⟩ := verifyUnexpired_ok h
  rw [hproof] at hshifted hverify
  obtain ⟨hnow,rfl⟩ := (shiftedCommitmentFor_eq_ok henc hcred).mp hshifted
  obtain ⟨value,blinding,hopen⟩ := hsound _ _ _ hverify
  have hexp := cred.expiresUnix.toNat_lt
  have hvalue := value.toNat_lt
  have heq := hbind.eq_add (by omega) (by omega) hopen
  omega
end

structure Crypto.Sound (crypto : Crypto q G C P SigningKey VerifyingKey) : Prop where
  order : 2^65 < q
  binding : crypto.gens.Binding
  encoding : crypto.encoding.RoundTrip
  complete : crypto.proofs.Complete crypto.gens crypto.encoding
  sound : crypto.proofs.Sound crypto.gens crypto.encoding

abbrev plainOrder : Nat := 2^65+1

abbrev PlainPoint := ZMod plainOrder × ZMod plainOrder

def plainGens : Generators plainOrder PlainPoint := ⟨(1, 0),(0, 1)⟩

/- Commitments that show what they hold, and proofs that are the opening. -/
def plainCrypto (only : Claims) :
    Crypto plainOrder PlainPoint PlainPoint (UInt64 × ZMod plainOrder) Merkle.Bytes Merkle.Bytes where
  gens := plainGens
  encoding := ⟨id,some⟩
  proofs :=
    ⟨fun _ value blinding => some ((value, blinding), plainGens.commit value.toNat blinding),
      fun p _ c => c=plainGens.commit p.1.toNat p.2⟩
  ed := Token.vectorEd25519
  engine := Token.urlSafeNoPad
  codec := SubscriptionClaims.onlyCodec only

theorem plainGens_commit (value blinding : ZMod plainOrder) :
    plainGens.commit value blinding=(value, blinding) := by
  simp [plainGens,Generators.commit]

theorem plainCrypto_sound (only : Claims) : (plainCrypto only).Sound where
  order := by decide
  binding := by
    intro value blinding value' blinding' heq
    change plainGens.commit _ _=plainGens.commit _ _ at heq
    rw [plainGens_commit,plainGens_commit] at heq
    exact congrArg Prod.fst heq
  encoding := fun _ => rfl
  complete := fun _ value blinding => ⟨(value, blinding),rfl,decide_eq_true rfl⟩
  sound := fun p _ point h => ⟨p.1,p.2,of_decide_eq_true h⟩

def plainClaims : Claims := ⟨"s", "u",100,40,50,0, "n"⟩

def plainHistory (token : Text) : History plainOrder PlainPoint :=
  history (plainCrypto plainClaims) .debug
    [.register (Token.vectorEd25519.verifyingKey Token.vectorSeed) token 10 7]

theorem plainHistory_registers : ∃ token, plainHistory token =
    ⟨⟨{(credentialFor (plainCrypto plainClaims) plainClaims 7).commitment}⟩,
      [credentialFor (plainCrypto plainClaims) plainClaims 7]⟩ := by
  obtain ⟨token,htoken⟩ := SubscriptionClaims.issue_succeeds Token.vectorEd25519
    Token.urlSafeNoPad Token.vectorSeed (SubscriptionClaims.onlyCodec_toVec plainClaims) (by decide)
    (by decide)
  have hverify := SubscriptionClaims.verify_of_issue Token.vectorEd25519_correct
    Token.urlSafeNoPad_exact (SubscriptionClaims.onlyCodec_roundTrip plainClaims) htoken
  have hgranted : EligibilityRegistry.new.registerVerifiedPaseto (plainCrypto plainClaims) .debug
      (Token.vectorEd25519.verifyingKey Token.vectorSeed) token 10 7=_ :=
    registerVerifiedPaseto_granted hverify (by decide) (by decide) (by decide)
  refine ⟨token,?_⟩
  rw [plainHistory,history,List.foldl_cons,List.foldl_nil,History.next,hgranted]
  rfl

end AetherX.Eligibility
