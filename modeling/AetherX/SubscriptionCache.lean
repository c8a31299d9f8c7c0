import AetherX.SubscriptionStore

/-! The read-through cache of subscriptions in Redis. A write deletes some keys of the cache after it
has gone to the backing store. -/
namespace AetherX.SubscriptionCache
open Machine SubscriptionStore

variable {β D : Type*}

/- The JSON library for subscriptions, all of whose fields it keeps. -/
structure Json (D : Type*) where
  marshal : Subscription → Option D
  unmarshal : D → Option Subscription
  roundTrip : ∀ sub data, marshal sub=some data → unmarshal data=some sub

def cacheKey (kind id : String) : String := "aether:" ++ kind ++ ":" ++ id

inductive Lookup where
  | token (subToken : String)
  | user (userId : String)
  deriving DecidableEq

namespace Lookup
def key : Lookup → String
  | token subToken => cacheKey "sub:token:" subToken
  | user userId => cacheKey "sub:user:" userId

def answer (b : Backend β) (store : β) : Lookup → Except StoreError Subscription
  | token subToken => b.byToken store subToken
  | user userId => b.byUserId store userId

theorem key_inj {l l' : Lookup} : l.key=l'.key ↔ l=l' := by
  cases l <;> cases l' <;> simp [key,cacheKey,String.ext_iff]

theorem key_ne_id (l : Lookup) (subId : String) : l.key≠cacheKey "sub:id:" subId := by
  cases l <;> simp [key,cacheKey,String.ext_iff]

end Lookup

structure RedisCache (β D : Type*) where
  backend : β
  redis : String → Option D

inductive Call where
  | find (l : Lookup)
  | updateUsage (subId : String) (bytesDelta : Int)
  | save (sub : Subscription)
  -- the ttl of a key runs out
  | expire (key : String)
  deriving DecidableEq

namespace RedisCache
variable (json : Json D) (b : Backend β)

def get (c : RedisCache β D) (key : String) : Option Subscription := (c.redis key).bind json.unmarshal

def set (c : RedisCache β D) (key : String) (sub : Subscription) : RedisCache β D :=
  match json.marshal sub with
  | some data => { c with redis := Function.update c.redis key (some data) }
  | none => c

def del (c : RedisCache β D) (key : String) : RedisCache β D :=
  { c with redis := Function.update c.redis key none }

/- ByToken and ByUserID, with the cache that they leave. -/
def find (c : RedisCache β D) (l : Lookup) : Except StoreError Subscription × RedisCache β D :=
  match c.get json l.key with
  | some sub => (.ok sub, c)
  | none => match l.answer b c.backend with
    | .ok sub => (.ok sub, c.set json l.key sub)
    | .error err => (.error err, c)

def byToken (c : RedisCache β D) (subToken : String) : Except StoreError Subscription × RedisCache β D :=
  c.find json b (.token subToken)

def byUserId (c : RedisCache β D) (userId : String) : Except StoreError Subscription × RedisCache β D :=
  c.find json b (.user userId)

def updateUsage (c : RedisCache β D) (subId : String) (bytesDelta : Int) : Except StoreError (RedisCache β D) :=
  match b.updateUsage c.backend subId bytesDelta with
  | .ok backend => .ok ({ c with backend }.del (cacheKey "sub:id:" subId))
  | .error err => .error err

def save (c : RedisCache β D) (sub : Subscription) : Except StoreError (RedisCache β D) :=
  match b.save c.backend sub with
  | .ok backend => .ok (({ c with backend }.del (Lookup.token sub.subToken).key).del (Lookup.user sub.userId).key)
  | .error err => .error err

def handle (c : RedisCache β D) : Call → RedisCache β D
  | .find l => (c.find json b l).2
  | .updateUsage subId bytesDelta => (c.updateUsage b subId bytesDelta).toOption.getD c
  | .save sub => (c.save b sub).toOption.getD c
  | .expire key => c.del key

/- Whoever asks the cache now is told what the backing store would say. -/
def Truthful (c : RedisCache β D) : Prop := ∀ l : Lookup, (c.find json b l).1=l.answer b c.backend

/- A write changes no answer that stays in the cache. -/
def Keeps (c : RedisCache β D) : Call → Prop
  | .updateUsage subId bytesDelta => ∀ backend, b.updateUsage c.backend subId bytesDelta = .ok backend →
      ∀ l : Lookup, c.get json l.key≠none → l.answer b backend=l.answer b c.backend
  | .save sub => ∀ backend, b.save c.backend sub = .ok backend →
      ∀ l : Lookup, l ≠ .token sub.subToken → l ≠ .user sub.userId → c.get json l.key≠none →
        l.answer b backend=l.answer b c.backend
  | _ => True

end RedisCache

section
variable {json : Json D} {b : Backend β} {c : RedisCache β D}

theorem RedisCache.truthful_iff :
    c.Truthful json b ↔ ∀ (l : Lookup) sub, c.get json l.key=some sub → l.answer b c.backend = .ok sub := by
  refine forall_congr' fun l => ?_
  rw [RedisCache.find]
  cases hget : c.get json l.key with
  | some sub => simp [eq_comm]
  | none =>
    cases l.answer b c.backend <;> simp

theorem RedisCache.get_del (key key' : String) :
    (c.del key).get json key'=if key'=key then none else c.get json key' := by
  rw [RedisCache.get,RedisCache.del]
  dsimp only
  rw [Function.update_apply]
  split_ifs <;> rfl

theorem RedisCache.get_set {key key' : String} {sub sub' : Subscription}
    (h : (c.set json key sub).get json key'=some sub') :
    (key'=key ∧ sub'=sub) ∨ c.get json key'=some sub' := by
  rw [RedisCache.set] at h
  split at h
  · rename_i data hdata
    rw [RedisCache.get] at h
    dsimp only at h
    rw [Function.update_apply] at h
    split_ifs at h with hkey
    · rw [Option.bind_some,json.roundTrip sub data hdata,Option.some.injEq] at h
      exact .inl ⟨hkey,h.symm⟩
    · exact .inr h
  · exact .inr h

theorem RedisCache.backend_set (key : String) (sub : Subscription) : (c.set json key sub).backend=c.backend := by
  rw [RedisCache.set]
  split <;> rfl

/-- Reading puts nothing into the cache that the backing store has not just said. -/
theorem RedisCache.Truthful.find (h : c.Truthful json b) (l : Lookup) : (c.find json b l).2.Truthful json b := by
  rw [RedisCache.find]
  split
  · exact h
  · split
    · rename_i sub hanswer
      rw [RedisCache.truthful_iff,RedisCache.backend_set]
      intro l' sub' hget
      obtain ⟨hkey,rfl⟩ | hold := RedisCache.get_set hget
      · rw [Lookup.key_inj.mp hkey]
        exact hanswer
      · exact RedisCache.truthful_iff.mp h l' sub' hold
    · exact h

/-- After a write that deletes some keys, the cache is truthful if and only if the answers under the
other keys that it holds have not changed. -/
theorem RedisCache.truthful_write_iff (h : c.Truthful json b) (c' : RedisCache β D) (deleted : Lookup → Prop)
    (hgone : ∀ l : Lookup, deleted l → c'.get json l.key=none)
    (hkept : ∀ l : Lookup, ¬ deleted l → c'.get json l.key=c.get json l.key) :
    c'.Truthful json b ↔ ∀ l : Lookup, ¬ deleted l → c.get json l.key≠none →
      l.answer b c'.backend=l.answer b c.backend := by
  rw [RedisCache.truthful_iff] at h ⊢
  constructor
  · intro h' l hl hcached
    obtain ⟨sub,hsub⟩ := Option.ne_none_iff_exists'.mp hcached
    rw [h l sub hsub,h' l sub ((hkept l hl).trans hsub)]
  · intro hsame l sub hsub
    have hl : ¬ deleted l := by
      intro hdeleted
      rw [hgone l hdeleted] at hsub
      cases hsub
    rw [hkept l hl] at hsub
    rw [hsame l hl (by rw [hsub]; exact Option.some_ne_none sub),h l sub hsub]

theorem RedisCache.truthful_handle_iff (h : c.Truthful json b) (call : Call) :
    (c.handle json b call).Truthful json b ↔ c.Keeps json b call := by
  cases call with
  | find l => exact iff_of_true (h.find l) trivial
  | expire key =>
    refine iff_of_true ?_ trivial
    rw [RedisCache.truthful_iff] at h ⊢
    intro l sub hsub
    rw [RedisCache.handle,RedisCache.get_del] at hsub
    split_ifs at hsub
    exact h l sub hsub
  | updateUsage subId bytesDelta =>
    rw [RedisCache.handle,RedisCache.updateUsage,RedisCache.Keeps]
    cases hupdate : b.updateUsage c.backend subId bytesDelta with
    | error err => exact iff_of_true h (by rintro _ ⟨⟩)
    | ok backend =>
      have hwrite := RedisCache.truthful_write_iff h ({ c with backend }.del (cacheKey "sub:id:" subId))
        (fun _ => False) (by rintro _ ⟨⟩) fun l _ => by
          rw [RedisCache.get_del,if_neg (l.key_ne_id subId)]
          rfl
      refine hwrite.trans ⟨?_,?_⟩
      · rintro hsame _ ⟨⟩ l
        exact hsame l id
      · exact fun hsame l _ => hsame backend rfl l
  | save sub =>
    rw [RedisCache.handle,RedisCache.save,RedisCache.Keeps]
    cases hsave : b.save c.backend sub with
    | error err => exact iff_of_true h (by rintro _ ⟨⟩)
    | ok backend =>
      have hwrite := RedisCache.truthful_write_iff h
        (({ c with backend }.del (Lookup.token sub.subToken).key).del (Lookup.user sub.userId).key)
        (fun l => l = .token sub.subToken ∨ l = .user sub.userId)
        (by rintro l (rfl | rfl) <;> simp [RedisCache.get_del]) fun l hl => by
          obtain ⟨htoken,huser⟩ := not_or.mp hl
          rw [RedisCache.get_del,if_neg (Lookup.key_inj.not.mpr huser),RedisCache.get_del,
            if_neg (Lookup.key_inj.not.mpr htoken)]
          rfl
      refine hwrite.trans ⟨?_,?_⟩
      · rintro hsame _ ⟨⟩ l htoken huser
        exact hsame l (not_or.mpr ⟨htoken,huser⟩)
      · intro hsame l hl
        obtain ⟨htoken,huser⟩ := not_or.mp hl
        exact hsame backend rfl l htoken huser

/-- Along every run the cache answers as the backing store would if and only if no write changes an
answer of the backing store that the cache holds under a key that the write does not delete. -/
theorem truthful_along_iff (json : Json D) (b : Backend β) (store : β) (calls : List Call) :
    (∀ before after, calls=before++after →
        (before.foldl (RedisCache.handle json b) ⟨store,fun _ => none⟩).Truthful json b) ↔
      ∀ before call after, calls=before++call::after →
        (before.foldl (RedisCache.handle json b) ⟨store,fun _ => none⟩).Keeps json b call := by
  have hstart : (⟨store,fun _ => none⟩ : RedisCache β D).Truthful json b :=
    RedisCache.truthful_iff.mpr (by rintro _ _ ⟨⟩)
  have hstep : ∀ (c : RedisCache β D) (call : Call), True → c.Truthful json b →
      ((c.handle json b call).Truthful json b ↔ c.Keeps json b call) :=
    fun _ call _ h => RedisCache.truthful_handle_iff h call
  exact foldl_along_iff (fun _ => True) (fun _ _ _ => trivial) hstep calls trivial hstart
end

def plainJson : Json Subscription := ⟨some,some,by rintro _ _ ⟨⟩; rfl⟩

def table : PgStore := .new (fun _ => true) fun _ => true

/- The usage is updated while the subscription is cached. -/
def usageBehind : List Call :=
  [.save demo,.find (.user "user-demo"),.updateUsage "sub-demo-001" 4096]

/- A subscription that is cached under its token is given another one. -/
def tokenBehind : List Call :=
  [.save demo,.find (.token "demo-token-aether-x-2026"),.save { demo with subToken := "token-2" }]

theorem stale_subscription_served :
    (¬ ∀ (calls : List Call) (userId : String),
      let c := calls.foldl (RedisCache.handle plainJson pgStore) ⟨table,fun _ => none⟩
      (c.byUserId plainJson pgStore userId).1=pgStore.byUserId c.backend userId) ∧
    ¬ ∀ (calls : List Call) (subToken : String),
      let c := calls.foldl (RedisCache.handle plainJson pgStore) ⟨table,fun _ => none⟩
      (c.byToken plainJson pgStore subToken).1=pgStore.byToken c.backend subToken := by
  constructor
  · intro h
    have hsame := h usageBehind "user-demo"
    revert hsame
    decide +kernel
  · intro h
    have hsame := h tokenBehind "demo-token-aether-x-2026"
    revert hsame
    decide +kernel

end AetherX.SubscriptionCache
