import AetherX.BigEndian
import AetherX.CheckedInt
import AetherX.Framing
import AetherX.Sha256

/-! Refresh tags: the message an HMAC is taken of, the verifier with its rotating keys, and the
freshness test on 64-bit times. -/
namespace AetherX.Refresh
open CheckedInt (Build Panic)

abbrev Bytes := List UInt8

inductive AntiForgeryError where
  | staleRefresh
  | badHmac
  deriving DecidableEq

/- The MAC the module calls: a key may be refused, and a keyed MAC maps messages to tags. -/
structure Mac where
  newFromSlice : Bytes → Option (Bytes → Bytes)

structure RefreshVerifier where
  currentKey : Bytes
  previousKey : Option Bytes
  skewMs : Int64

def RefreshVerifier.new (currentKey : Bytes) (skewMs : Int64) : RefreshVerifier :=
  ⟨currentKey,none,max skewMs 0⟩

def RefreshVerifier.rotate (v : RefreshVerifier) (newKey : Bytes) : RefreshVerifier :=
  { v with currentKey := newKey, previousKey := some v.currentKey }

def asBytes (s : String) : Bytes := s.toUTF8.data.toList

def toBeBytes (n : Int64) : Bytes := BigEndian.toBytes 8 n.toUInt64.toNat

def refreshMessage (tokenId nonce : String) (timestampMs : Int64) : Bytes :=
  asBytes tokenId++[0]++asBytes nonce++[0]++toBeBytes timestampMs

def hmacMatches (mac : Mac) (key msg tag : Bytes) : Bool :=
  match mac.newFromSlice key with
  | some keyed => keyed msg == tag
  | none => false

def refreshTag (mac : Mac) (key : Bytes) (tokenId nonce : String) (timestampMs : Int64) : Bytes :=
  match mac.newFromSlice key with
  | some keyed => keyed (refreshMessage tokenId nonce timestampMs)
  | none => []

def RefreshVerifier.verify (mac : Mac) (build : Build) (v : RefreshVerifier)
    (tokenId nonce : String) (timestampMs : Int64) (tag : Bytes) (nowUnixMs : Int64) :
    Except Panic (Except AntiForgeryError Unit) := do
  let age ← CheckedInt.distance build nowUnixMs timestampMs
  if age > v.skewMs then .ok (.error .staleRefresh)
  else
    let msg := refreshMessage tokenId nonce timestampMs
    if hmacMatches mac v.currentKey msg tag then .ok (.ok ())
    else
      match v.previousKey with
      | some prev => if hmacMatches mac prev msg tag then .ok (.ok ()) else .ok (.error .badHmac)
      | none => .ok (.error .badHmac)

section
open Sha256

/- A key filled up to the block of the hash, one that is too long being hashed first. -/
def keyBlock (key : Bytes) : Bytes :=
  let short := if key.length > 64 then (sha256 key).bytes else key
  short++List.replicate (64-short.length) 0

def hmacSha256 : Mac where
  newFromSlice key := some fun msg =>
    let inner := sha256 ((keyBlock key).map (· ^^^ 0x36)++msg)
    (sha256 ((keyBlock key).map (· ^^^ 0x5c)++inner.bytes)).bytes

/- HMAC of "what do ya want for nothing?" under the key "Jefe". -/
example : ((hmacSha256.newFromSlice (asBytes "Jefe")).map fun keyed =>
    (keyed (asBytes "what do ya want for nothing?")).take 4)=some [0x5b,0xdc,0xc1,0x46] := by
  decide +kernel
end

theorem asBytes_append (s t : String) : asBytes (s++t)=asBytes s++asBytes t := by
  simp [asBytes]

theorem asBytes_injective : Function.Injective asBytes := by
  intro s t h
  exact String.toByteArray_inj.mp (ByteArray.ext (Array.toList_inj.mp h))

theorem toBeBytes_injective : Function.Injective toBeBytes := by
  intro m n h
  have hnat := congrArg BigEndian.ofBytes h
  rw [toBeBytes,toBeBytes,BigEndian.ofBytes_toBytes,BigEndian.ofBytes_toBytes,
    Nat.mod_eq_of_lt (show m.toUInt64.toNat<256^8 from m.toUInt64.toNat_lt),
    Nat.mod_eq_of_lt (show n.toUInt64.toNat<256^8 from n.toUInt64.toNat_lt)] at hnat
  have hword := UInt64.toNat_inj.mp hnat
  simpa using congrArg UInt64.toInt64 hword

/- The text in front of the second separator. -/
theorem refreshMessage_eq (tokenId nonce : String) (timestampMs : Int64) :
    refreshMessage tokenId nonce timestampMs =
      asBytes (tokenId ++ "\x00" ++ nonce)++0::toBeBytes timestampMs := by
  have hzero : asBytes "\x00" = [0] := by decide
  rw [asBytes_append,asBytes_append,hzero]
  simp [refreshMessage]

theorem nul_toList : ("\x00" : String).toList=['\x00'] := by decide

/-- One message has one timestamp, and one text in front of it. -/
theorem refreshMessage_eq_iff {tokenId nonce tokenId' nonce' : String} {t t' : Int64} :
    refreshMessage tokenId' nonce' t'=refreshMessage tokenId nonce t ↔
      tokenId'.toList ++ '\x00' :: nonce'.toList=tokenId.toList ++ '\x00' :: nonce.toList ∧
        t'=t := by
  have htext : ∀ a b : String, (a ++ "\x00" ++ b).toList=a.toList ++ '\x00' :: b.toList := by
    intro a b
    simp [nul_toList]
  rw [← htext,← htext,String.toList_inj,refreshMessage_eq,refreshMessage_eq]
  constructor
  · intro h
    obtain ⟨hbytes,htime⟩ := List.append_inj' h (by simp [toBeBytes])
    exact ⟨asBytes_injective hbytes,toBeBytes_injective (List.cons.inj htime).2⟩
  · intro h
    rw [h.1,h.2]

structure Attempt where
  tokenId : String
  nonce : String
  timestampMs : Int64

def Attempt.message (a : Attempt) : Bytes := refreshMessage a.tokenId a.nonce a.timestampMs

/-- No other attempt has this message: exactly if neither text contains the separator. -/
theorem message_unique_iff (a : Attempt) :
    (∀ b : Attempt, b.message=a.message → b=a) ↔
      '\x00' ∉ a.tokenId.toList ∧ '\x00' ∉ a.nonce.toList := by
  rw [← Framing.separated_unique_iff]
  constructor
  · intro huniq x y heq
    rw [← String.toList_ofList (l := x),← String.toList_ofList (l := y)] at heq
    have hb := huniq ⟨String.ofList x,String.ofList y,a.timestampMs⟩
      (refreshMessage_eq_iff.mpr ⟨heq,rfl⟩)
    rw [← hb]
    exact ⟨String.toList_ofList.symm,String.toList_ofList.symm⟩
  · intro huniq b heq
    obtain ⟨htext,htime⟩ := refreshMessage_eq_iff.mp heq
    obtain ⟨htoken,hnonce⟩ := huniq _ _ htext
    cases a
    cases b
    rw [Attempt.mk.injEq]
    exact ⟨String.toList_inj.mp htoken,String.toList_inj.mp hnonce,htime⟩

def RefreshVerifier.keys (v : RefreshVerifier) : List Bytes := v.currentKey::v.previousKey.toList

/-- Everything verify can answer once the distance of the times is computed. -/
theorem verify_of_distance {mac : Mac} {build : Build} {v : RefreshVerifier} {a : Attempt}
    {tag : Bytes} {now age : Int64} (h : CheckedInt.distance build now a.timestampMs = .ok age) :
    v.verify mac build a.tokenId a.nonce a.timestampMs tag now = .ok (
      if age > v.skewMs then .error .staleRefresh
      else if v.keys.any (hmacMatches mac · a.message tag) then .ok ()
      else .error .badHmac) := by
  obtain ⟨current,previous,skew⟩ := v
  simp only [RefreshVerifier.verify,h,bind,Except.bind,RefreshVerifier.keys,List.any_cons,
    Attempt.message]
  cases previous with
  | none =>
    simp only [Option.toList_none,List.any_nil,Bool.or_false]
    split_ifs <;> rfl
  | some prev =>
    simp only [Option.toList_some,List.any_cons,List.any_nil,Bool.or_false,Bool.or_eq_true]
    split_ifs <;> simp_all

variable (rotations : List Bytes)

/- Each rotation puts a key in front and leaves two. -/
theorem keys_foldl_rotate (v : RefreshVerifier) :
    (rotations.foldl RefreshVerifier.rotate v).keys=(rotations.reverse++v.keys).take 2 := by
  induction rotations generalizing v with
  | nil =>
    have hlen : v.keys.length≤2 := by
      rw [RefreshVerifier.keys]
      cases v.previousKey <;> simp
    simp [List.take_of_length_le hlen]
  | cons k rest ih =>
    rw [List.foldl_cons,ih,List.reverse_cons,List.append_assoc]
    rcases rest.reverse with _ | ⟨x,_ | ⟨y,ys⟩⟩ <;> rfl

theorem skewMs_foldl_rotate (v : RefreshVerifier) :
    (rotations.foldl RefreshVerifier.rotate v).skewMs=v.skewMs := by
  induction rotations generalizing v with
  | nil => rfl
  | cons k rest ih => rw [List.foldl_cons,ih,RefreshVerifier.rotate]

/- The verifier after these rotations, and the keys it should then accept. -/
def rotated (key : Bytes) (skewMs : Int64) (rotations : List Bytes) : RefreshVerifier :=
  rotations.foldl RefreshVerifier.rotate (RefreshVerifier.new key skewMs)

def latestTwo (key : Bytes) (rotations : List Bytes) : List Bytes :=
  (key::rotations).reverse.take 2

theorem keys_rotated (key : Bytes) (skewMs : Int64) (rotations : List Bytes) :
    (rotated key skewMs rotations).keys=latestTwo key rotations := by
  rw [rotated,keys_foldl_rotate,latestTwo,List.reverse_cons]
  rfl

theorem skewMs_rotated (key : Bytes) (skewMs : Int64) (rotations : List Bytes) :
    (rotated key skewMs rotations).skewMs.toInt=max skewMs.toInt 0 := by
  rw [rotated,skewMs_foldl_rotate,RefreshVerifier.new,CheckedInt.toInt_max]
  rfl

def IsTag (mac : Mac) (key msg tag : Bytes) : Prop :=
  ∃ keyed, mac.newFromSlice key=some keyed ∧ keyed msg=tag

theorem hmacMatches_iff {mac : Mac} {key msg tag : Bytes} :
    hmacMatches mac key msg tag=true ↔ IsTag mac key msg tag := by
  rw [hmacMatches,IsTag]
  cases mac.newFromSlice key <;> simp

theorem any_hmacMatches_iff {mac : Mac} {keys : List Bytes} {msg tag : Bytes} :
    keys.any (hmacMatches mac · msg tag)=true ↔ ∃ k∈keys, IsTag mac k msg tag := by
  simp only [List.any_eq_true,hmacMatches_iff]

theorem answer_eq_ok {stale matching : Prop} [Decidable stale] [Decidable matching] :
    (if stale then .error .staleRefresh else if matching then .ok () else .error .badHmac :
      Except AntiForgeryError Unit) = .ok () ↔ ¬ stale ∧ matching := by
  split_ifs <;> simp_all

section
variable (mac : Mac) (key : Bytes) (skewMs : Int64) (rotations : List Bytes) (a : Attempt)
  (tag : Bytes) (now : Int64)

/-- Freshness and the tag under one of the two latest keys, on exact integers. -/
def Genuine : Prop :=
  |now.toInt-a.timestampMs.toInt| ≤ max skewMs.toInt 0 ∧
    ∃ k∈latestTwo key rotations, IsTag mac k a.message tag

def verifies (build : Build) : Except Panic (Except AntiForgeryError Unit) :=
  (rotated key skewMs rotations).verify mac build a.tokenId a.nonce a.timestampMs tag now

theorem verifies_of_lt (build : Build) (h : |now.toInt-a.timestampMs.toInt| < 2^63) :
    ∃ result, verifies mac key skewMs rotations a tag now build = .ok result ∧
      (result = .ok () ↔ Genuine mac key skewMs rotations a tag now) := by
  obtain ⟨age,hage,hval⟩ := CheckedInt.distance_of_lt build h
  refine ⟨_,verify_of_distance hage,?_⟩
  rw [answer_eq_ok,keys_rotated,any_hmacMatches_iff,Genuine,gt_iff_lt,Int64.lt_iff_toInt_lt,
    hval,skewMs_rotated,not_lt]

variable {mac key skewMs rotations a tag now} in
theorem isTag_of_verifies {build : Build}
    (h : verifies mac key skewMs rotations a tag now build = .ok (.ok ())) :
    ∃ k∈latestTwo key rotations, IsTag mac k a.message tag := by
  cases hage : CheckedInt.distance build now a.timestampMs with
  | error panic =>
    rw [verifies,RefreshVerifier.verify,hage] at h
    cases h
  | ok age =>
    rw [verifies,verify_of_distance hage,Except.ok.injEq,answer_eq_ok,keys_rotated,
      any_hmacMatches_iff] at h
    exact h.2

/-- For every history of keys, every skew and all times: no build overflows and each accepts exactly
the genuine attempts, if and only if the distance of the two times is itself an i64. -/
theorem refresh_exact_iff :
    (∀ build, ∃ result, verifies mac key skewMs rotations a tag now build = .ok result ∧
      (result = .ok () ↔ Genuine mac key skewMs rotations a tag now)) ↔
    |now.toInt-a.timestampMs.toInt| < 2^63 := by
  constructor
  · intro hall
    by_contra hfar
    obtain ⟨result,hresult,-⟩ := hall .debug
    rw [verifies,RefreshVerifier.verify,CheckedInt.distance_debug_of_ge hfar] at hresult
    cases hresult
  · intro h build
    exact verifies_of_lt mac key skewMs rotations a tag now build h
end

/-- A tag issued far in the past: with overflow checks the verifier panics, without them the
difference wraps around to one millisecond and the tag is fresh. -/
theorem far_timestamps_accepted :
    (¬ ∀ (key : Bytes) (skewMs : Int64) (a : Attempt) (tag : Bytes) (now : Int64),
      ∃ result, verifies hmacSha256 key skewMs [] a tag now .debug = .ok result) ∧
    ¬ ∀ (key : Bytes) (skewMs : Int64) (a : Attempt) (tag : Bytes) (now : Int64),
      verifies hmacSha256 key skewMs [] a tag now .release = .ok (.ok ()) →
        Genuine hmacSha256 key skewMs [] a tag now := by
  constructor
  · intro hall
    obtain ⟨result,hresult⟩ := hall [] 0 ⟨"t", "n",-1⟩ [] Int64.maxValue
    rw [verifies,RefreshVerifier.verify,CheckedInt.distance_debug_of_ge (by decide)] at hresult
    cases hresult
  · intro hall
    let a : Attempt := ⟨"t", "n",Int64.minValue⟩
    have hdistance : CheckedInt.distance .release Int64.maxValue a.timestampMs = .ok 1 := by decide
    have haccepted : verifies hmacSha256 [1] 5000 [] a
        (refreshTag hmacSha256 [1] a.tokenId a.nonce a.timestampMs) Int64.maxValue .release =
          .ok (.ok ()) := by
      rw [verifies,verify_of_distance hdistance,Except.ok.injEq,answer_eq_ok,keys_rotated,
        any_hmacMatches_iff]
      exact ⟨by decide,[1],by decide,_,rfl,rfl⟩
    exact absurd (hall _ _ _ _ _ haccepted).1 (by decide)

/- Two keyed messages with one tag are one message. -/
def Mac.CollisionFree (mac : Mac) : Prop :=
  ∀ k k' keyed keyed' m m', mac.newFromSlice k=some keyed → mac.newFromSlice k'=some keyed' →
    keyed m=keyed' m' → m=m'

/-- An attempt can be confused with no other, by its message or by its tag, exactly if neither its
token id nor its nonce contains the separator. -/
theorem refresh_binds_iff (a : Attempt) :
    ((∀ b : Attempt, b.message=a.message → b=a) ↔
      '\x00' ∉ a.tokenId.toList ∧ '\x00' ∉ a.nonce.toList) ∧
    ∀ mac : Mac, mac.CollisionFree → ∀ build key skewMs rotations,
      ∀ k∈latestTwo key rotations, (mac.newFromSlice k).isSome →
        ((∀ (b : Attempt) now, verifies mac key skewMs rotations b
            (refreshTag mac k a.tokenId a.nonce a.timestampMs) now build = .ok (.ok ()) → b=a) ↔
          '\x00' ∉ a.tokenId.toList ∧ '\x00' ∉ a.nonce.toList) := by
  refine ⟨message_unique_iff a,?_⟩
  intro mac hfree build key skewMs rotations k hk hsome
  obtain ⟨keyed,hkeyed⟩ := Option.isSome_iff_exists.mp hsome
  have htag : refreshTag mac k a.tokenId a.nonce a.timestampMs=keyed a.message := by
    rw [refreshTag,hkeyed]
    rfl
  rw [htag,← message_unique_iff]
  constructor
  · intro hbinds b hmsg
    -- at its own time an attempt with the same message is fresh, and its tag is this one
    have hzero : |b.timestampMs.toInt-b.timestampMs.toInt| = 0 := by simp
    obtain ⟨result,hresult,hiff⟩ := verifies_of_lt mac key skewMs rotations b (keyed a.message)
      b.timestampMs build (by rw [hzero]; decide)
    have hgenuine : Genuine mac key skewMs rotations b (keyed a.message) b.timestampMs :=
      ⟨by rw [hzero]; exact le_max_right _ _,k,hk,keyed,hkeyed,by rw [hmsg]⟩
    rw [hiff.mpr hgenuine] at hresult
    exact hbinds b b.timestampMs hresult
  · intro huniq b now haccepted
    obtain ⟨k',-,keyed',hkeyed',heq⟩ := isTag_of_verifies haccepted
    exact huniq b (hfree k' k keyed' keyed _ _ hkeyed' hkeyed heq)

/- The MAC that shows its message. -/
theorem refresh_binds_iff_plain : Mac.CollisionFree ⟨fun _ => some id⟩ ∧
    ∀ (b : Attempt) now, verifies ⟨fun _ => some id⟩ [1] 5000 [] b
      (refreshTag ⟨fun _ => some id⟩ [1] "tok" "nonce" 10) now .debug = .ok (.ok ()) →
      b=⟨"tok", "nonce",10⟩ := by
  have hfree : Mac.CollisionFree ⟨fun _ => some id⟩ := by
    intro k k' keyed keyed' m m' h h' heq
    cases h
    cases h'
    exact heq
  exact ⟨hfree,((refresh_binds_iff ⟨"tok", "nonce",10⟩).2 ⟨fun _ => some id⟩ hfree .debug [1] 5000
    [] [1] (by decide) rfl).mpr (by decide)⟩

theorem refresh_tag_for_other_attempt :
    (¬ ∀ a b : Attempt, b.message=a.message → b=a) ∧
    ¬ ∀ (key : Bytes) (skewMs : Int64) (a b : Attempt) (now : Int64),
      verifies hmacSha256 key skewMs [] b
        (refreshTag hmacSha256 key a.tokenId a.nonce a.timestampMs) now .release = .ok (.ok ()) →
      b=a := by
  let a : Attempt := ⟨"a\x00b", "c",0⟩
  let b : Attempt := ⟨"a", "b\x00c",0⟩
  have hmsg : b.message=a.message := refreshMessage_eq_iff.mpr ⟨by decide,rfl⟩
  have hne : ¬ b=a := by
    intro heq
    exact absurd (congrArg Attempt.tokenId heq) (by decide)
  refine ⟨fun hall => hne (hall a b hmsg),fun hall => hne (hall [1] 5000 a b 0 ?_)⟩
  obtain ⟨result,hresult,hiff⟩ := verifies_of_lt hmacSha256 [1] 5000 [] b
    (refreshTag hmacSha256 [1] a.tokenId a.nonce a.timestampMs) 0 .release (by decide)
  have hgenuine : Genuine hmacSha256 [1] 5000 [] b
      (refreshTag hmacSha256 [1] a.tokenId a.nonce a.timestampMs) 0 :=
    ⟨by decide,[1],by decide,_,rfl,by rw [hmsg]; rfl⟩
  rwa [hiff.mpr hgenuine] at hresult

end AetherX.Refresh
