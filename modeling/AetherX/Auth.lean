import Mathlib.Data.List.Sort
import Mathlib.Data.String.Basic

/-! Access tokens of the control plane: a ring of signing keys, one of them active, and the keys that
a token is verified with. What the JWT library does is a parameter. -/
namespace AetherX.Auth

abbrev Secret := List UInt8

/- The key identifier in the header of a token, which may be of any JSON type. -/
inductive Kid where
  | string (value : String)
  | other
  deriving DecidableEq

structure Claims where
  uid : String
  role : String
  subject : String
  deriving DecidableEq

/- The library decodes a token and checks its signature with a key; valid says that the method is
   HS256, that the issuer is the control plane and that the times are in order. -/
structure Jwt (T : Type) where
  header : T → Option (Option Kid)
  claims : T → Claims
  verifies : T → Secret → Bool
  valid : T → Bool

inductive KeyringError where
  | activeRequired
  | activeTooShort
  | previousInvalid
  | previousTooShort (keyId : String)
  | duplicate (keyId : String)

inductive ParseError where
  | notConfigured
  | malformed
  | unknownKeyId
  | emptyKey
  | rejected
  | invalidClaims
  | invalidRole
  | unavailable
  deriving DecidableEq

def keyIdChar (c : Char) : Bool :=
  ('a' ≤ c && c ≤ 'z') || ('A' ≤ c && c ≤ 'Z') || ('0' ≤ c && c ≤ '9') || c == '-' || c == '_'

def normalizeKeyId (value : String) : String :=
  if value.utf8ByteSize=0 ∨ 64 < value.utf8ByteSize then ""
  else if value.toList.all keyIdChar then value else ""

theorem normalizeKeyId_eq {value : String} (h : normalizeKeyId value ≠ "") : normalizeKeyId value=value := by
  rw [normalizeKeyId] at h ⊢
  split_ifs at h ⊢ <;> simp_all

theorem normalizeKeyId_self {value : String} (h : normalizeKeyId value ≠ "") :
    normalizeKeyId (normalizeKeyId value)=normalizeKeyId value ∧ normalizeKeyId value ≠ "" := by
  refine ⟨?_,h⟩
  rw [normalizeKeyId_eq h,normalizeKeyId_eq h]

/- A header that is malformed names no key, as one that is absent. -/
def namedKeyId : Option Kid → String
  | some (.string value) => normalizeKeyId value
  | _ => ""

theorem eq_string_of_named {kid : Kid} (h : namedKeyId (some kid) ≠ "") :
    kid = .string (namedKeyId (some kid)) := by
  cases kid with
  | string value => exact congrArg Kid.string (normalizeKeyId_eq h).symm
  | other => exact absurd rfl h

/- Every identifier in the ring is one that a header can name. -/
structure Issuer where
  activeKeyId : String
  keys : List (String × Secret)
  named : ∀ id∈keys.map Prod.fst, normalizeKeyId id=id ∧ id ≠ ""

namespace Issuer
def keyIds (i : Issuer) : List String := i.keys.map Prod.fst

def addPrevious (i : Issuer) (previous : String × Secret) : Except KeyringError Issuer :=
  let keyId := normalizeKeyId previous.1
  if h : keyId ≠ "" then
    if keyId=i.activeKeyId then .error .previousInvalid
    else if previous.2.length<32 then .error (.previousTooShort keyId)
    else if keyId∈i.keyIds then .error (.duplicate keyId)
    else .ok ⟨i.activeKeyId,(keyId, previous.2)::i.keys,
      List.forall_mem_cons.mpr ⟨normalizeKeyId_self h,i.named⟩⟩
  else .error .previousInvalid

def newKeyring (activeKeyId : String) (activeSecret : Secret) (previous : List (String × Secret)) :
    Except KeyringError Issuer :=
  let keyId := normalizeKeyId activeKeyId
  if h : keyId ≠ "" then
    if activeSecret.length<32 then .error .activeTooShort
    else previous.foldlM addPrevious ⟨keyId,[(keyId, activeSecret)],
      List.forall_mem_singleton.mpr (normalizeKeyId_self h)⟩
  else .error .activeRequired

/- A key that is not there reads as the empty one. -/
def secret (i : Issuer) (keyId : String) : Secret := (i.keys.lookup keyId).getD []

end Issuer

section
variable {T : Type} (jwt : Jwt T) (i : Issuer) (token : T)

def candidateKeyIds : Except ParseError (List String) :=
  match jwt.header token with
  | none => .error .malformed
  | some kid =>
    let keyId := namedKeyId kid
    if keyId ≠ "" then if keyId∈i.keyIds then .ok [keyId] else .error .unknownKeyId
    else .ok (i.activeKeyId::(i.keyIds.filter (· ≠ i.activeKeyId)).insertionSort (· ≤ ·))

def parseWithKey (key : Secret) : Except ParseError Claims :=
  let claims := jwt.claims token
  if key=[] then .error .emptyKey
  else if (jwt.verifies token key && jwt.valid token)=false then .error .rejected
  else if claims.uid = "" ∨ claims.subject≠claims.uid then .error .invalidClaims
  else if claims.role∉["user", "reseller", "admin"] then .error .invalidRole
  else .ok claims

def tryKeys (lastErr : ParseError) : List String → Except ParseError Claims
  | [] => .error lastErr
  | keyId::keyIds => match parseWithKey jwt token (i.secret keyId) with
    | .ok claims => .ok claims
    | .error e => tryKeys e keyIds

def parse : Except ParseError Claims := do
  if i.keys=[] then throw .notConfigured
  tryKeys jwt i token .unavailable (← candidateKeyIds jwt i token)

variable {jwt i token}

theorem tryKeys_ok {lastErr : ParseError} {keyIds : List String} :
    (∃ claims, tryKeys jwt i token lastErr keyIds = .ok claims) ↔
      ∃ id∈keyIds, ∃ claims, parseWithKey jwt token (i.secret id) = .ok claims := by
  induction keyIds generalizing lastErr with
  | nil => simp [tryKeys]
  | cons keyId keyIds ih =>
    rw [tryKeys,List.exists_mem_cons_iff]
    cases hparse : parseWithKey jwt token (i.secret keyId) with
    | ok claims => simp
    | error e => simp [ih]

theorem parseWithKey_ok {id : String} {claims : Claims}
    (h : parseWithKey jwt token (i.secret id) = .ok claims) :
    id∈i.keyIds ∧ jwt.verifies token (i.secret id)=true := by
  rw [parseWithKey] at h
  split_ifs at h with hempty hverifies
  refine ⟨?_,by simp_all⟩
  by_contra hid
  refine hempty ?_
  have hnone : i.keys.lookup id=none := List.lookup_eq_none_iff.mpr fun entry hentry => by
    simpa using fun heq => hid (List.mem_map.mpr ⟨entry,hentry,heq.symm⟩)
  rw [Issuer.secret,hnone,Option.getD_none]

theorem parse_ok : (∃ claims, parse jwt i token = .ok claims) ↔
    i.keys≠[] ∧ ∃ keyIds, candidateKeyIds jwt i token = .ok keyIds ∧
      ∃ id∈keyIds, ∃ claims, parseWithKey jwt token (i.secret id) = .ok claims := by
  rw [parse]
  by_cases hkeys : i.keys=[]
  · simp [hkeys,throw,throwThe,MonadExceptOf.throw,bind,Except.bind]
  · cases hids : candidateKeyIds jwt i token with
    | error e => simp [hkeys,bind,Except.bind]
    | ok keyIds => simp [hkeys,bind,Except.bind,tryKeys_ok]
end

/-- A token that carries a key identifier is accepted only with the key that it names, exactly if the
identifier is one that the normaliser keeps, or no key of the ring would accept the token. -/
theorem named_key_only_iff {T : Type} (jwt : Jwt T) (i : Issuer) (token : T) :
    (∀ kid, jwt.header token=some (some kid) → (∃ claims, parse jwt i token = .ok claims) →
      ∃ id∈i.keyIds, kid = .string id ∧ jwt.verifies token (i.secret id)=true) ↔
    ∀ kid, jwt.header token=some (some kid) → namedKeyId (some kid) ≠ "" ∨
      ∀ id∈i.keyIds, ∀ claims, parseWithKey jwt token (i.secret id) ≠ .ok claims := by
  refine forall₂_congr fun kid hkid => ?_
  rw [parse_ok,candidateKeyIds,hkid]
  by_cases hname : namedKeyId (some kid) ≠ ""
  · refine iff_of_true ?_ (.inl hname)
    rintro ⟨-,keyIds,hids,id,hid,claims,hparse⟩
    simp only [if_pos hname] at hids
    split_ifs at hids
    obtain rfl := Except.ok.inj hids
    obtain rfl := List.mem_singleton.mp hid
    obtain ⟨hmem,hverifies⟩ := parseWithKey_ok hparse
    exact ⟨_,hmem,eq_string_of_named hname,hverifies⟩
  · simp only [if_neg hname,or_iff_right hname]
    constructor
    · intro honly id hid claims hparse
      have hkeys : i.keys≠[] := by
        intro hkeys
        simp [Issuer.keyIds,hkeys] at hid
      have hcandidate : id∈i.activeKeyId::(i.keyIds.filter (· ≠ i.activeKeyId)).insertionSort (· ≤ ·) := by
        by_cases hactive : id=i.activeKeyId <;> simp [hactive,hid]
      obtain ⟨id',hid',rfl,-⟩ := honly ⟨hkeys,_,rfl,id,hcandidate,claims,hparse⟩
      obtain ⟨hself,hne⟩ := i.named id' hid'
      refine hname ?_
      rw [namedKeyId,hself]
      exact hne
    · rintro hnone ⟨-,_,-,id,-,claims,hparse⟩
      exact absurd hparse (hnone id (parseWithKey_ok hparse).1 claims)

def signed : Jwt (Kid × Secret) where
  header token := some (some token.1)
  claims _ := ⟨"u1", "admin", "u1"⟩
  verifies token key := token.2=key
  valid _ := true

/-- An identifier with a character that it may not have is as good as none: the token is accepted with
a key of another name. -/
theorem malformed_kid_accepted :
    ∃ i, Issuer.newKeyring "new" (.replicate 32 2) [("old", .replicate 32 1)] = .ok i ∧
      parse signed i (.string "new!", .replicate 32 1) = .ok ⟨"u1", "admin", "u1"⟩ ∧
      Kid.string "new!" ∉ i.keyIds.map Kid.string :=
  ⟨⟨"new",[("old", .replicate 32 1),("new", .replicate 32 2)],by decide +kernel⟩,by rfl,
    by decide +kernel,by decide +kernel⟩

end AetherX.Auth
