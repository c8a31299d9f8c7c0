import AetherX.Machine
import Mathlib.Tactic.SplitIfs
import Mathlib.Algebra.Group.Nat.Defs

/-! The model registry: signed artifacts in shadow mode, the evidence collected about them,
promotion and rollback. Each lock-protected section is a function of its own, and the calls
run their sections one after the other. -/
namespace AetherX.ModelRegistry
open Machine Function

abbrev Bytes := List UInt8
abbrev Key := Vector UInt8 32
abbrev Signature := Vector UInt8 64

open List

/- Times are nanoseconds of one monotonic clock. -/
abbrev Instant := Nat
abbrev Duration := Nat

structure FailureSignature where
  sampleCount : UInt32
  successRate : Float
  tcpRstRate : Float
  tlsTruncRate : Float
  dnsAnomalyRate : Float

inductive Decision where
  | keep (protocol : String)
  | switch (protocol : String)
  | escalate
  deriving DecidableEq

def defaultCascade : List String :=
  ["reality-vision", "hysteria2", "tuic-v5", "shadowtls-v3-ss2022", "amneziawg", "persis-cover-front"]

def dpiSwitchRate : Float := 0.3
def dnsEscalateRate : Float := 0.5
def defaultSwitchThreshold : Float := 0.85
def defaultMinSamples : UInt32 := 20

structure FallbackEngine where
  cascade : List String
  minSamples : UInt32
  switchThreshold : Float

def FallbackEngine.default : FallbackEngine :=
  ⟨defaultCascade,defaultMinSamples,defaultSwitchThreshold⟩

/- The larger of two rates; one that is not a number is passed over. -/
def maxRate (x y : Float) : Float :=
  if x.isNaN then y else if y.isNaN then x else if x < y then y else x

def FallbackEngine.nextAfter (engine : FallbackEngine) (current : String) : Decision :=
  match engine.cascade.findIdx? (· == current) with
  | some i =>
    match engine.cascade[i+1]? with
    | some protocol => .switch protocol
    | none => .escalate
  | none => .escalate

def FallbackEngine.decide (engine : FallbackEngine) (current : String) (sig : FailureSignature) :
    Decision :=
  if sig.sampleCount < engine.minSamples then .keep current
  else if sig.dnsAnomalyRate > dnsEscalateRate then .escalate
  else if maxRate sig.tcpRstRate sig.tlsTruncRate > dpiSwitchRate ∨
      sig.successRate < engine.switchThreshold then engine.nextAfter current
  else .keep current

inductive ModelKind where
  | censorshipClassifier
  | protocolFitness
  | fingerprintDrift
  | adaptiveFallback
  | artifactSigner
  deriving DecidableEq

def ModelKind.text : ModelKind → String
  | .censorshipClassifier => "censorship_classifier"
  | .protocolFitness => "protocol_fitness"
  | .fingerprintDrift => "fingerprint_drift"
  | .adaptiveFallback => "adaptive_fallback"
  | .artifactSigner => "artifact_signer"

def ModelKind.all : List ModelKind :=
  [.censorshipClassifier,.protocolFitness,.fingerprintDrift,.adaptiveFallback,.artifactSigner]

inductive ModelMode where
  | shadow
  | promoted
  | rolledBack
  deriving DecidableEq

structure ModelArtifact where
  kind : ModelKind
  version : String
  signatureHex : String
  loadedAt : Instant
  mode : ModelMode
  shadowDecisionCount : UInt64
  promotedAt : Option Instant
  deriving DecidableEq

/- An entry of the shadow log; the decision is kept as it is, not as its debug text. -/
structure ShadowDecision where
  modelKind : String
  modelVersion : String
  modelPrediction : String
  fsmDecision : Decision
  timestampUnixMs : UInt64
  isp : String

def saturatingSucc (n : UInt64) : UInt64 := if n=UInt64.ofNat (2^64-1) then n else n+1

structure ShadowEvaluation where
  samples : UInt64
  modelSuccesses : UInt64
  fsmSuccesses : UInt64
  modelOnlySuccesses : UInt64
  fsmOnlySuccesses : UInt64
  deriving DecidableEq

def ShadowEvaluation.default : ShadowEvaluation := ⟨0,0,0,0,0⟩

def ShadowEvaluation.observe (e : ShadowEvaluation) (modelSucceeded fsmSucceeded : Bool) :
    ShadowEvaluation where
  samples := saturatingSucc e.samples
  modelSuccesses := if modelSucceeded then saturatingSucc e.modelSuccesses else e.modelSuccesses
  fsmSuccesses := if fsmSucceeded then saturatingSucc e.fsmSuccesses else e.fsmSuccesses
  modelOnlySuccesses :=
    if modelSucceeded && !fsmSucceeded then saturatingSucc e.modelOnlySuccesses
    else e.modelOnlySuccesses
  fsmOnlySuccesses :=
    if fsmSucceeded && !modelSucceeded then saturatingSucc e.fsmOnlySuccesses
    else e.fsmOnlySuccesses

def shadowMinDuration : Duration := 7*24*3600*1000000000
def shadowMinDecisions : UInt64 := 10000
def rollbackBudget : Duration := 5*1000000000
def shadowMinEvaluatedOutcomes : UInt64 := 1000
def promotionMinSuccessMargin : Float := 0.01
def shadowLogCapacity : Nat := 4096

def rate (successes samples : UInt64) : Float :=
  if samples=0 then 0.0 else successes.toFloat/samples.toFloat

def ShadowEvaluation.modelSuccessRate (e : ShadowEvaluation) : Float :=
  rate e.modelSuccesses e.samples

def ShadowEvaluation.fsmSuccessRate (e : ShadowEvaluation) : Float := rate e.fsmSuccesses e.samples

def ShadowEvaluation.meetsPromotionQualityGate (e : ShadowEvaluation) : Bool :=
  if e.samples < shadowMinEvaluatedOutcomes then false
  else
    decide (e.modelSuccessRate ≥ e.fsmSuccessRate+promotionMinSuccessMargin) &&
      decide (e.modelOnlySuccesses ≥ e.fsmOnlySuccesses)

structure PromotionReadiness where
  loaded : Bool
  controlsRouting : Bool
  shadowDurationSatisfied : Bool
  shadowDecisionsSatisfied : Bool
  qualityGateSatisfied : Bool
  evaluation : ShadowEvaluation

def PromotionReadiness.eligible (p : PromotionReadiness) : Bool :=
  p.loaded && p.controlsRouting && p.shadowDurationSatisfied && p.shadowDecisionsSatisfied &&
    p.qualityGateSatisfied

/- The readiness of what was read of the artifact and of its evaluation. -/
def readiness (kind : ModelKind) (artifact : Option ModelArtifact)
    (evaluation : Option ShadowEvaluation) (now : Instant) : PromotionReadiness :=
  let evaluation := evaluation.getD .default
  match artifact with
  | none => ⟨false,false,false,false,false,evaluation⟩
  | some artifact =>
    let isShadow := decide (artifact.mode = .shadow)
    { loaded := true
      controlsRouting := decide (kind = .adaptiveFallback) && isShadow
      shadowDurationSatisfied := isShadow && decide (now-artifact.loadedAt ≥ shadowMinDuration)
      shadowDecisionsSatisfied :=
        isShadow && decide (artifact.shadowDecisionCount ≥ shadowMinDecisions)
      qualityGateSatisfied := isShadow && evaluation.meetsPromotionQualityGate
      evaluation := evaluation }

inductive SignatureStatus where
  | valid
  | invalid
  | missing
  | untrustedKey
  deriving DecidableEq

inductive ModelRegistryError where
  | invalidSignature
  | missingSignature
  | untrustedKey
  | rollbackBudgetExceeded (elapsed : Duration)
  | notLoaded
  deriving DecidableEq

/- A key that is no curve point verifies nothing. -/
def verifyArtifactSignature (verifies : Key → Bytes → Signature → Bool) (artifactBytes : Bytes)
    (signature : Signature) (trustedKeys : List Key) : SignatureStatus :=
  if signature.toList.all (· == 0) then .missing
  else if trustedKeys.any fun key => verifies key artifactBytes signature then .valid
  else if trustedKeys.isEmpty then .untrustedKey
  else .invalid

def hexDigit (n : Nat) : Char := if n<10 then Char.ofNat (48+n) else Char.ofNat (87+n)

def hexEncode (bytes : Bytes) : String :=
  String.ofList (bytes.flatMap fun b => [hexDigit (b.toNat/16),hexDigit (b.toNat%16)])

structure Registry where
  models : ModelKind → Option ModelArtifact
  shadowLog : List ShadowDecision
  evaluations : ModelKind → Option ShadowEvaluation
  trustedKeys : List Key
  totalShadowDecisions : UInt64
  totalRollbacks : UInt64
  totalPromotions : UInt64
  fsmOnly : Bool

namespace Registry
def new : Registry := ⟨fun _ => none,[],fun _ => none,[],0,0,0,true⟩

section
variable (r : Registry) (kind : ModelKind)

def insertArtifact (artifact : ModelArtifact) : Registry :=
  { r with models := update r.models kind (some artifact) }

def removeEvaluation : Registry :=
  { r with evaluations := update r.evaluations kind none }

def shadowVersion : Option String :=
  (r.models kind).bind fun artifact =>
    if artifact.mode = .shadow then some artifact.version else none

def pushLog (entry : ShadowDecision) : Registry :=
  { r with
    shadowLog :=
      (if r.shadowLog.length=shadowLogCapacity then r.shadowLog.drop 1 else r.shadowLog)++[entry]
    totalShadowDecisions := r.totalShadowDecisions+1 }

def countDecision : Registry :=
  { r with
    models := update r.models kind ((r.models kind).map fun artifact =>
      { artifact with shadowDecisionCount := saturatingSucc artifact.shadowDecisionCount }) }

def observeOutcome (modelSucceeded fsmSucceeded : Bool) : Registry :=
  { r with
    evaluations := update r.evaluations kind
      (some (((r.evaluations kind).getD .default).observe modelSucceeded fsmSucceeded)) }

/- The last section of promote; it looks at the mode once more. -/
def writePromotion (now : Instant) : Registry × Bool :=
  match r.models kind with
  | some artifact =>
    if artifact.mode ≠ .shadow then (r, false)
    else
      ({ r with
          models := update r.models kind
            (some { artifact with mode := .promoted, promotedAt := some now })
          totalPromotions := r.totalPromotions+1
          fsmOnly := false }, true)
  | none => (r, false)
end

section
variable (verifies : Key → Bytes → Signature → Bool) (r : Registry)

def addTrustedKey (key : Key) : Registry := { r with trustedKeys := r.trustedKeys++[key] }

def loadedArtifact (kind : ModelKind) (version : String) (signature : Signature) (now : Instant) :
    ModelArtifact :=
  ⟨kind,version,hexEncode signature.toList,now,.shadow,0,none⟩

def loadArtifact (kind : ModelKind) (version : String) (artifactBytes : Bytes)
    (signature : Signature) (now : Instant) : Registry × Except ModelRegistryError Unit :=
  match verifyArtifactSignature verifies artifactBytes signature r.trustedKeys with
  | .valid =>
    ((r.insertArtifact kind (loadedArtifact kind version signature now)).removeEvaluation kind,
      .ok ())
  | .invalid => (r, .error .invalidSignature)
  | .missing => (r, .error .missingSignature)
  | .untrustedKey => (r, .error .untrustedKey)

/- What an entry of the shadow log is made of, apart from the version of the model. -/
structure DecisionReport where
  modelPrediction : String
  signature : FailureSignature
  currentProtocol : String
  isp : String
  timestampUnixMs : UInt64

def DecisionReport.decision (report : DecisionReport) : Decision :=
  FallbackEngine.default.decide report.currentProtocol report.signature

def DecisionReport.entry (report : DecisionReport) (kind : ModelKind) (version : String) :
    ShadowDecision :=
  ⟨kind.text,version,report.modelPrediction,report.decision,report.timestampUnixMs,report.isp⟩

def recordShadowDecision (kind : ModelKind) (report : DecisionReport) : Registry × Decision :=
  match r.shadowVersion kind with
  | none => (r, report.decision)
  | some version => ((r.pushLog (report.entry kind version)).countDecision kind, report.decision)

def recordShadowOutcome (kind : ModelKind) (modelSucceeded fsmSucceeded : Bool) : Registry × Bool :=
  if (r.shadowVersion kind).isSome then
    (r.observeOutcome kind modelSucceeded fsmSucceeded, true)
  else (r, false)

def promotionReadiness (kind : ModelKind) (now : Instant) : PromotionReadiness :=
  readiness kind (r.models kind) (r.evaluations kind) now

def promote (kind : ModelKind) (checkedAt now : Instant) : Registry × Bool :=
  if (r.promotionReadiness kind checkedAt).eligible then r.writePromotion kind now else (r, false)

def isPromoted (kind : ModelKind) : Bool :=
  (r.models kind).any fun artifact => artifact.mode = .promoted

/- The flag goes up again when no other model is promoted. -/
def demote (kind : ModelKind) (artifact : ModelArtifact) : Registry :=
  let rolled := { r with
    models := update r.models kind (some { artifact with mode := .rolledBack })
    totalRollbacks := r.totalRollbacks+1 }
  if ModelKind.all.any rolled.isPromoted then rolled else { rolled with fsmOnly := true }

/- A rollback over its budget is reported as an error, and has still happened. -/
def rollback (kind : ModelKind) (start finish : Instant) :
    Registry × Except ModelRegistryError Duration :=
  match r.models kind with
  | none => (r, .error .notLoaded)
  | some artifact =>
    (if artifact.mode = .promoted then r.demote kind artifact else r,
      if finish-start > rollbackBudget then .error (.rollbackBudgetExceeded (finish-start))
      else .ok (finish-start))

def modelMode (kind : ModelKind) : Option ModelMode := (r.models kind).map ModelArtifact.mode

def isFsmOnly : Bool := r.fsmOnly
end

end Registry

inductive Op where
  | addTrustedKey (key : Key)
  | loadArtifact (kind : ModelKind) (version : String) (artifactBytes : Bytes)
      (signature : Signature) (now : Instant)
  | recordShadowDecision (kind : ModelKind) (report : Registry.DecisionReport)
  | recordShadowOutcome (kind : ModelKind) (modelSucceeded fsmSucceeded : Bool)
  | promote (kind : ModelKind) (checkedAt now : Instant)
  | rollback (kind : ModelKind) (start finish : Instant)

def Registry.apply (verifies : Key → Bytes → Signature → Bool) (r : Registry) : Op → Registry
  | .addTrustedKey key => r.addTrustedKey key
  | .loadArtifact kind version artifactBytes signature now =>
    (r.loadArtifact verifies kind version artifactBytes signature now).1
  | .recordShadowDecision kind report => (r.recordShadowDecision kind report).1
  | .recordShadowOutcome kind modelSucceeded fsmSucceeded =>
    (r.recordShadowOutcome kind modelSucceeded fsmSucceeded).1
  | .promote kind checkedAt now => (r.promote kind checkedAt now).1
  | .rollback kind start finish => (r.rollback kind start finish).1

section
variable {verifies : Key → Bytes → Signature → Bool} {r r' : Registry}

/-- The flag that bypasses all models is up exactly when none is promoted. -/
def Consistent (r : Registry) : Prop :=
  r.isFsmOnly=true ↔ ∀ kind, r.modelMode kind≠some .promoted

theorem consistent_new : Consistent .new := by
  simp [Consistent,Registry.new,Registry.isFsmOnly,Registry.modelMode]

/- A step that neither moves the flag nor promotes or demotes a model. -/
theorem Consistent.of_same (h : Consistent r) (hflag : r'.fsmOnly=r.fsmOnly)
    (hmodes : ∀ kind, r'.modelMode kind=some .promoted ↔ r.modelMode kind=some .promoted) :
    Consistent r' := by
  rw [Consistent,Registry.isFsmOnly,hflag]
  simp only [Ne,hmodes]
  exact h

theorem modelMode_update (models : ModelKind → Option ModelArtifact) (artifact : ModelArtifact)
    (kind kind' : ModelKind) : (update models kind (some artifact) kind').map ModelArtifact.mode =
      if kind'=kind then some artifact.mode else (models kind').map ModelArtifact.mode := by
  rw [update_apply]
  split_ifs <;> rfl

theorem modelMode_countDecision (r : Registry) (kind kind' : ModelKind) :
    (r.countDecision kind).modelMode kind'=r.modelMode kind' := by
  simp only [Registry.modelMode,Registry.countDecision]
  by_cases hk : kind'=kind
  · subst hk
    rw [update_self,Option.map_map]
    rfl
  · rw [update_of_ne hk]

theorem mem_all (kind : ModelKind) : kind∈ModelKind.all := by
  cases kind <;> decide

theorem any_isPromoted (r : Registry) : ModelKind.all.any r.isPromoted=true ↔
    ∃ kind, r.modelMode kind=some .promoted := by
  have hpromoted : ∀ kind, r.isPromoted kind=true ↔ r.modelMode kind=some .promoted := by
    intro kind
    rw [Registry.isPromoted,Registry.modelMode]
    cases r.models kind <;> simp
  rw [any_eq_true]
  exact ⟨fun h => h.elim fun kind hk => ⟨kind,(hpromoted kind).mp hk.2⟩,
    fun h => h.elim fun kind hk => ⟨kind,mem_all kind,(hpromoted kind).mpr hk⟩⟩

/- A verified artifact may take the place of any artifact that is not promoted. -/
theorem Consistent.loadArtifact (h : Consistent r) {kind : ModelKind} {version : String}
    {artifactBytes : Bytes} {signature : Signature} {now : Instant}
    (hkeep : verifyArtifactSignature verifies artifactBytes signature r.trustedKeys = .valid →
      r.modelMode kind≠some .promoted) :
    Consistent (r.loadArtifact verifies kind version artifactBytes signature now).1 := by
  rw [Registry.loadArtifact]
  split
  next hvalid =>
    refine h.of_same rfl fun kind' => ?_
    have hold := hkeep hvalid
    simp only [Registry.modelMode,Registry.removeEvaluation,Registry.insertArtifact,
      modelMode_update] at hold ⊢
    split_ifs with hk
    · subst hk
      simp [Registry.loadedArtifact,hold]
    · rfl
  next => exact h
  next => exact h
  next => exact h

theorem Consistent.recordShadowDecision (h : Consistent r) (kind : ModelKind)
    (report : Registry.DecisionReport) : Consistent (r.recordShadowDecision kind report).1 := by
  rw [Registry.recordShadowDecision]
  split
  · exact h
  · refine h.of_same rfl fun kind' => ?_
    rw [modelMode_countDecision]
    rfl

theorem Consistent.recordShadowOutcome (h : Consistent r) (kind : ModelKind)
    (modelSucceeded fsmSucceeded : Bool) :
    Consistent (r.recordShadowOutcome kind modelSucceeded fsmSucceeded).1 := by
  rw [Registry.recordShadowOutcome]
  split
  · exact h.of_same rfl fun _ => Iff.rfl
  · exact h

theorem Consistent.writePromotion (h : Consistent r) (kind : ModelKind) (now : Instant) :
    Consistent (r.writePromotion kind now).1 := by
  rw [Registry.writePromotion]
  split
  next artifact hloaded =>
    split_ifs
    · exact h
    · refine ⟨fun hflag => absurd hflag (by simp [Registry.isFsmOnly]),fun hnone => ?_⟩
      refine absurd ?_ (hnone kind)
      simp [Registry.modelMode]
  next => exact h

theorem Consistent.promote (h : Consistent r) (kind : ModelKind) (checkedAt now : Instant) :
    Consistent (r.promote kind checkedAt now).1 := by
  rw [Registry.promote]
  split_ifs
  · exact h.writePromotion kind now
  · exact h

theorem Consistent.demote (h : Consistent r) {kind : ModelKind} {artifact : ModelArtifact}
    (hloaded : r.models kind=some artifact) (hmode : artifact.mode = .promoted) :
    Consistent (r.demote kind artifact) := by
  rw [Registry.demote]
  dsimp only
  split_ifs with hany
  · -- another model is promoted, and the flag was already down
    have hdown : ¬ r.fsmOnly=true := fun hup => h.mp hup kind (by
      rw [Registry.modelMode,hloaded,Option.map_some,hmode])
    obtain ⟨other,hother⟩ := (any_isPromoted _).mp hany
    exact ⟨fun hup => absurd hup hdown,fun hnone => absurd hother (hnone other)⟩
  · refine ⟨fun _ other hother => hany ((any_isPromoted _).mpr ⟨other,hother⟩),fun _ => rfl⟩

theorem Consistent.rollback (h : Consistent r) (kind : ModelKind) (start finish : Instant) :
    Consistent (r.rollback kind start finish).1 := by
  rw [Registry.rollback]
  split
  next => exact h
  next artifact hloaded =>
    dsimp only
    split_ifs with hmode
    · exact h.demote hloaded hmode
    · exact h

/-- Every load that passes the signature check is for a kind without a promoted artifact. -/
def KeepsPromoted (verifies : Key → Bytes → Signature → Bool) (r : Registry) : Op → Prop
  | .loadArtifact kind _ artifactBytes signature _ =>
    verifyArtifactSignature verifies artifactBytes signature r.trustedKeys = .valid →
      r.modelMode kind≠some .promoted
  | _ => True

theorem Consistent.apply (h : Consistent r) {op : Op} (hkeep : KeepsPromoted verifies r op) :
    Consistent (r.apply verifies op) := by
  cases op with
  | addTrustedKey key => exact h.of_same rfl fun _ => Iff.rfl
  | loadArtifact kind version artifactBytes signature now => exact h.loadArtifact hkeep
  | recordShadowDecision kind report => exact h.recordShadowDecision kind report
  | recordShadowOutcome kind modelSucceeded fsmSucceeded =>
    exact h.recordShadowOutcome kind modelSucceeded fsmSucceeded
  | promote kind checkedAt now => exact h.promote kind checkedAt now
  | rollback kind start finish => exact h.rollback kind start finish

/-- In every run of calls at any clock times in which no promoted artifact is loaded over, the
registry is FSM-only exactly when no loaded model is promoted. -/
theorem fsm_only_iff_none_promoted (verifies : Key → Bytes → Signature → Bool) (ops : List Op)
    (r : Registry) (hrun : Run (Guarded (KeepsPromoted verifies) (Registry.apply verifies)) .new ops r) :
    r.isFsmOnly=true ↔ ∀ kind, r.modelMode kind≠some .promoted := by
  refine hrun.invariant consistent_new ?_
  intro r op r' hr hstep
  obtain ⟨hkeep,rfl⟩ := hstep
  exact hr.apply hkeep
end

section
variable {r : Registry} {keys : List Key} {artifact : ModelArtifact} {n m : Nat}

theorem saturatingSucc_ofNat (h : n+1<2^64) :
    saturatingSucc (.ofNat n) = .ofNat (n+1) := by
  have hne : UInt64.ofNat n ≠ .ofNat (2^64-1) := by
    intro he
    have hnat := congrArg UInt64.toNat he
    rw [UInt64.toNat_ofNat',UInt64.toNat_ofNat',Nat.mod_eq_of_lt (by omega)] at hnat
    omega
  rw [saturatingSucc,if_neg hne,UInt64.ofNat_add]
  rfl

/- One adaptive fallback model in shadow mode, with n decisions and with m outcomes that only
   the model met. -/
structure Gathered (r : Registry) (keys : List Key) (artifact : ModelArtifact) (n m : Nat) : Prop where
  keys : r.trustedKeys=keys
  models : r.models=update (fun _ => none) .adaptiveFallback
    (some { artifact with mode := .shadow, shadowDecisionCount := .ofNat n })
  evaluation : (r.evaluations .adaptiveFallback).getD .default=⟨.ofNat m,.ofNat m,0,.ofNat m,0⟩

theorem Gathered.loaded (h : Gathered r keys artifact n m) : r.models .adaptiveFallback =
    some { artifact with mode := .shadow, shadowDecisionCount := .ofNat n } := by
  rw [h.models,update_self]

theorem Gathered.shadowVersion (h : Gathered r keys artifact n m) :
    r.shadowVersion .adaptiveFallback=some artifact.version := by
  rw [Registry.shadowVersion,h.loaded,Option.bind_some]
  rfl

theorem Gathered.count (h : Gathered r keys artifact n m) (hn : n+1<2^64) (entry : ShadowDecision) :
    Gathered ((r.pushLog entry).countDecision .adaptiveFallback) keys artifact (n+1) m := by
  refine ⟨h.keys,?_,h.evaluation⟩
  simp only [Registry.countDecision,Registry.pushLog,h.models,update_idem,
    update_self,Option.map_some,saturatingSucc_ofNat hn]

theorem Gathered.observe (h : Gathered r keys artifact n m) (hm : m+1<2^64) :
    Gathered (r.observeOutcome .adaptiveFallback true false) keys artifact n (m+1) := by
  refine ⟨h.keys,h.models,?_⟩
  simp [Registry.observeOutcome,h.evaluation,ShadowEvaluation.observe,saturatingSucc_ofNat hm]

/- A week, ten thousand decisions and a thousand outcomes are enough. -/
theorem Gathered.eligible (h : Gathered r keys artifact 10000 1000) {now : Instant}
    (hnow : artifact.loadedAt+shadowMinDuration ≤ now) :
    (r.promotionReadiness .adaptiveFallback now).eligible=true := by
  have hgate : ShadowEvaluation.meetsPromotionQualityGate
      ⟨.ofNat 1000,.ofNat 1000,0,.ofNat 1000,0⟩=true := by decide +kernel
  have hcount : UInt64.ofNat 10000 ≥ shadowMinDecisions := by decide
  have hduration : now-artifact.loadedAt ≥ shadowMinDuration := Nat.le_sub_of_add_le' hnow
  simp only [Registry.promotionReadiness,readiness,h.loaded,h.evaluation]
  simp only [PromotionReadiness.eligible,hduration,hcount,hgate,decide_true,Bool.and_self]

/- What a promotion leaves: the adaptive fallback model alone, promoted, and the flag down. -/
structure PromotedAlone (r : Registry) (keys : List Key) : Prop where
  keys : r.trustedKeys=keys
  flag : r.fsmOnly=false
  models : ∃ artifact, artifact.mode = .promoted ∧
    r.models=update (fun _ => none) .adaptiveFallback (some artifact)

theorem PromotedAlone.modelMode (h : PromotedAlone r keys) :
    r.modelMode .adaptiveFallback=some .promoted := by
  obtain ⟨-,-,artifact,hmode,hmodels⟩ := h
  rw [Registry.modelMode,hmodels,update_self,Option.map_some,hmode]

theorem Gathered.promote (h : Gathered r keys artifact 10000 1000) {checkedAt : Instant}
    (hnow : artifact.loadedAt+shadowMinDuration ≤ checkedAt) (now : Instant) :
    PromotedAlone (r.promote .adaptiveFallback checkedAt now).1 keys := by
  rw [Registry.promote,if_pos (h.eligible hnow),Registry.writePromotion,h.loaded]
  refine ⟨h.keys,rfl,{ artifact with
    mode := .promoted
    shadowDecisionCount := .ofNat 10000
    promotedAt := some now },rfl,?_⟩
  simp only [h.models,update_idem]
  rfl

theorem Gathered.decision (h : Gathered r keys artifact n m) (hn : n+1<2^64)
    (verifies : Key → Bytes → Signature → Bool) (report : Registry.DecisionReport) :
    Gathered (r.apply verifies (.recordShadowDecision .adaptiveFallback report)) keys artifact (n+1) m := by
  rw [Registry.apply,Registry.recordShadowDecision,h.shadowVersion]
  exact h.count hn _

theorem Gathered.outcome (h : Gathered r keys artifact n m) (hm : m+1<2^64)
    (verifies : Key → Bytes → Signature → Bool) :
    Gathered (r.apply verifies (.recordShadowOutcome .adaptiveFallback true false)) keys artifact n (m+1) := by
  rw [Registry.apply,Registry.recordShadowOutcome,h.shadowVersion]
  exact h.observe hm

theorem Gathered.decisions (h : Gathered r keys artifact 0 m) (hn : n<2^64)
    (verifies : Key → Bytes → Signature → Bool) (report : Registry.DecisionReport) :
    Gathered ((replicate n (Op.recordShadowDecision .adaptiveFallback report)).foldl
      (Registry.apply verifies) r) keys artifact n m := by
  induction n with
  | zero => exact h
  | succ n ih =>
    rw [replicate_succ',foldl_append]
    exact (ih (Nat.lt_of_succ_lt hn)).decision hn verifies report

theorem Gathered.outcomes (h : Gathered r keys artifact n 0) (hm : m<2^64)
    (verifies : Key → Bytes → Signature → Bool) :
    Gathered ((replicate m (Op.recordShadowOutcome .adaptiveFallback true false)).foldl
      (Registry.apply verifies) r) keys artifact n m := by
  induction m with
  | zero => exact h
  | succ m ih =>
    rw [replicate_succ',foldl_append]
    exact (ih (Nat.lt_of_succ_lt hm)).outcome hm verifies
end

/- A key, a message and the signature of that message under that key. -/
def signerKey : Key :=
  ⟨#[61,64,23,195,232,67,137,90,146,183,10,167,77,27,126,188,156,152,44,207,46,
    196,150,140,192,205,85,241,42,244,102,12],rfl⟩

def signedBytes : Bytes := [114]

def signature : Signature :=
  ⟨#[146,160,9,169,240,212,202,184,114,14,130,11,95,100,37,64,162,178,123,84,22,
    80,63,143,179,118,34,35,235,219,105,218,8,90,193,228,62,21,153,110,69,143,54,
    19,208,241,29,140,56,123,46,174,180,48,42,238,176,13,41,22,18,187,12,0],rfl⟩

/- Verification where that is the only signature ever made. -/
def onlySignature (key : Key) (bytes : Bytes) (sig : Signature) : Bool :=
  decide (key=signerKey) && decide (bytes=signedBytes) && decide (sig=signature)

theorem onlySignature_valid :
    verifyArtifactSignature onlySignature signedBytes signature [signerKey] = .valid := by
  decide +kernel

def loadAt (now : Instant) : Op := .loadArtifact .adaptiveFallback "v1" signedBytes signature now

def report : Registry.DecisionReport :=
  ⟨"hysteria2",⟨20,0.5,0.0,0.0,0.0⟩, "reality-vision", "isp",0⟩

def evidence : List Op :=
  replicate 10000 (.recordShadowDecision .adaptiveFallback report) ++
    replicate 1000 (.recordShadowOutcome .adaptiveFallback true false)

def loadedOnce : Registry :=
  [.addTrustedKey signerKey,loadAt 0].foldl (Registry.apply onlySignature) .new

def gatheredOnce : Registry := evidence.foldl (Registry.apply onlySignature) loadedOnce

def promoteOnce : Op := .promote .adaptiveFallback shadowMinDuration shadowMinDuration

def promotedOnce : Registry := gatheredOnce.apply onlySignature promoteOnce

theorem apply_loadAt {r : Registry} (h : r.trustedKeys=[signerKey]) (now : Instant) :
    r.apply onlySignature (loadAt now)=(r.insertArtifact .adaptiveFallback
      (Registry.loadedArtifact .adaptiveFallback "v1" signature now)).removeEvaluation .adaptiveFallback := by
  rw [loadAt,Registry.apply,Registry.loadArtifact,h,onlySignature_valid]

theorem gathered_loadedOnce : Gathered loadedOnce [signerKey]
    (Registry.loadedArtifact .adaptiveFallback "v1" signature 0) 0 0 := by
  rw [loadedOnce,foldl_cons,foldl_cons,foldl_nil,apply_loadAt rfl]
  exact ⟨rfl,rfl,rfl⟩

theorem gathered_gatheredOnce : Gathered gatheredOnce [signerKey]
    (Registry.loadedArtifact .adaptiveFallback "v1" signature 0) 10000 1000 := by
  rw [gatheredOnce,evidence,foldl_append]
  exact (gathered_loadedOnce.decisions (by decide) onlySignature report).outcomes (by decide)
    onlySignature

theorem promotedAlone_promotedOnce : PromotedAlone promotedOnce [signerKey] := by
  rw [promotedOnce,promoteOnce,Registry.apply]
  exact gathered_gatheredOnce.promote (Nat.le_of_eq (Nat.zero_add _)) _

/- Loading over the promoted artifact leaves nothing promoted and the flag down. -/
theorem PromotedAlone.reload {r : Registry} (h : PromotedAlone r [signerKey]) (now : Instant) :
    (r.apply onlySignature (loadAt now)).isFsmOnly=false ∧
      ∀ kind, (r.apply onlySignature (loadAt now)).modelMode kind≠some .promoted := by
  obtain ⟨hkeys,hflag,artifact,-,hmodels⟩ := h
  rw [apply_loadAt hkeys]
  refine ⟨hflag,fun kind => ?_⟩
  simp only [Registry.modelMode,Registry.removeEvaluation,Registry.insertArtifact,hmodels,
    update_idem,modelMode_update]
  split_ifs <;> simp [Registry.loadedArtifact]

/- Calls that load nothing need no condition. -/
theorem run_evidence (r : Registry) (ops : List Op)
    (h : ∀ op∈ops, ∀ r, KeepsPromoted onlySignature r op) :
    Run (Guarded (KeepsPromoted onlySignature) (Registry.apply onlySignature)) r ops
      (ops.foldl (Registry.apply onlySignature) r) := by
  induction ops generalizing r with
  | nil => exact .refl r
  | cons op ops ih =>
    refine .cons ⟨h op mem_cons_self r,rfl⟩ (ih _ fun op hop => ?_)
    exact h op (mem_cons_of_mem _ hop)

theorem foldl_promoted : (evidence++[promoteOnce]).foldl (Registry.apply onlySignature) loadedOnce =
    promotedOnce := by
  rw [foldl_append,← gatheredOnce,foldl_cons,foldl_nil,← promotedOnce]

theorem fsm_only_iff_none_promoted_once :
    promotedOnce.modelMode .adaptiveFallback=some .promoted ∧
      (promotedOnce.isFsmOnly=true ↔ ∀ kind, promotedOnce.modelMode kind≠some .promoted) := by
  constructor
  · exact promotedAlone_promotedOnce.modelMode
  · have hload : Run (Guarded (KeepsPromoted onlySignature) (Registry.apply onlySignature)) .new
        [.addTrustedKey signerKey,loadAt 0] loadedOnce := by
      refine .cons ⟨trivial,rfl⟩ (.cons ⟨fun _ => ?_,rfl⟩ (.refl _))
      simp [Registry.modelMode,Registry.new,Registry.apply,Registry.addTrustedKey]
    have hrest := run_evidence loadedOnce (evidence++[promoteOnce]) (by
      intro op hop r
      simp only [evidence,mem_append,mem_replicate,mem_singleton] at hop
      obtain (⟨-,rfl⟩ | ⟨-,rfl⟩) | rfl := hop <;> trivial)
    rw [foldl_promoted] at hrest
    exact fsm_only_iff_none_promoted onlySignature _ promotedOnce (hload.append hrest)

/- The promoted artifact is loaded once more: nothing is promoted, and the flag stays down. -/
theorem fsm_only_lost_on_reload :
    ¬ ∀ (verifies : Key → Bytes → Signature → Bool) (ops : List Op),
      let r := ops.foldl (Registry.apply verifies) .new
      r.isFsmOnly=true ↔ ∀ kind, r.modelMode kind≠some .promoted := by
  intro hall
  have hfinal := hall onlySignature ([.addTrustedKey signerKey,loadAt 0]++(evidence ++
    [promoteOnce]++[loadAt shadowMinDuration]))
  dsimp only at hfinal
  rw [foldl_append,← loadedOnce,foldl_append,foldl_promoted,foldl_cons,
    foldl_nil] at hfinal
  obtain ⟨hflag,hnone⟩ := promotedAlone_promotedOnce.reload shadowMinDuration
  rw [hfinal.mpr hnone] at hflag
  cases hflag

end AetherX.ModelRegistry
