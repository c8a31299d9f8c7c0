import Mathlib.Data.List.AList
import Mathlib.Algebra.Group.Int.Defs
import AetherX.Machine

/-! The subscriptions of the control plane, kept in memory under three indices or in a PostgreSQL
table, and the record of what was last saved that both of them are to answer from. -/
namespace AetherX.SubscriptionStore
open Machine Function

/- Times in nanoseconds. -/
@[ext]
structure Subscription where
  id : String
  userId : String
  planId : String
  bytesTotal : Int
  bytesUsed : Int
  expiresAt : Int
  revoked : Bool
  subToken : String
  createdAt : Int
  deriving DecidableEq

def Subscription.addUsage (bytesDelta : Int) (sub : Subscription) : Subscription :=
  { sub with bytesUsed := max 0 (sub.bytesUsed+bytesDelta) }

inductive PgError where
  | uniqueViolation
  | foreignKeyViolation
  | outOfRange
  | refused
  deriving DecidableEq

inductive StoreError where
  | notFound
  | save (err : PgError)
  | updateUsage (err : PgError)
  deriving DecidableEq

/- The interface of a store; a call that fails leaves the store as it was. -/
structure Backend (β : Type*) where
  byToken : β → String → Except StoreError Subscription
  byUserId : β → String → Except StoreError Subscription
  updateUsage : β → String → Int → Except StoreError β
  save : β → Subscription → Except StoreError β

inductive Op where
  | save (sub : Subscription)
  | updateUsage (subId : String) (bytesDelta : Int)
  deriving DecidableEq

def Backend.apply {β : Type*} (b : Backend β) (store : β) : Op → Except StoreError β
  | .save sub => b.save store sub
  | .updateUsage subId bytesDelta => b.updateUsage store subId bytesDelta

def wrap64 (n : Int) : Int := (n+2^63)%2^64-2^63

/- The records are pointers into the objects that the callers handed over. -/
structure MemStore where
  objects : List Subscription
  subs : String → Option Nat
  subsByToken : String → Option Nat
  subsByUser : String → Option Nat

namespace MemStore
def new : MemStore := ⟨[],fun _ => none,fun _ => none,fun _ => none⟩

def deref (s : MemStore) (p : Option Nat) : Except StoreError Subscription :=
  match p.bind fun p => s.objects[p]? with
  | some sub => .ok sub
  | none => .error .notFound

def byToken (s : MemStore) (subToken : String) : Except StoreError Subscription :=
  s.deref (s.subsByToken subToken)

def byUserId (s : MemStore) (userId : String) : Except StoreError Subscription :=
  s.deref (s.subsByUser userId)

/- Int64 addition wraps around. -/
def addUsage (bytesDelta : Int) (sub : Subscription) : Subscription :=
  { sub with bytesUsed := max 0 (wrap64 (sub.bytesUsed+bytesDelta)) }

def updateUsage (s : MemStore) (subId : String) (bytesDelta : Int) : Except StoreError MemStore :=
  match s.subs subId with
  | none => .error .notFound
  | some p => .ok { s with objects := s.objects.modify p (addUsage bytesDelta) }

def index (key : String) (p : Nat) (m : String → Option Nat) : String → Option Nat :=
  if key = "" then m else update m key (some p)

def save (s : MemStore) (sub : Subscription) : MemStore :=
  let p := s.objects.length
  { objects := s.objects++[sub]
    subs := update s.subs sub.id (some p)
    subsByToken := index sub.subToken p s.subsByToken
    subsByUser := index sub.userId p s.subsByUser }

end MemStore

def memStore : Backend MemStore where
  byToken := MemStore.byToken
  byUserId := MemStore.byUserId
  updateUsage := MemStore.updateUsage
  save s sub := .ok (s.save sub)

/- The resolution of TIMESTAMPTZ. -/
def timestamptz (t : Int) : Int := t/1000*1000

/- The table, with its primary key and its UNIQUE sub_token. The identifiers of the users that the
   table refers to, and what the server can encode at all, are fixed. -/
structure PgStore where
  users : String → Bool
  accepts : Subscription → Bool
  rows : AList fun _ : String => Subscription
  keyed : ∀ id row, rows.lookup id=some row → row.id=id
  unique : ∀ id id' row row', rows.lookup id=some row → rows.lookup id'=some row' →
    row.subToken=row'.subToken → id=id'

namespace PgStore
def new (users : String → Bool) (accepts : Subscription → Bool) : PgStore :=
  ⟨users,accepts,∅,by simp,by simp⟩

def table (pg : PgStore) : List Subscription := pg.rows.entries.map Sigma.snd

def row (pg : PgStore) (id : String) : Option Subscription := pg.rows.lookup id

def answer : Option Subscription → Except StoreError Subscription
  | some sub => .ok sub
  | none => .error .notFound

def byToken (pg : PgStore) (subToken : String) : Except StoreError Subscription :=
  answer (pg.table.find? fun row => row.subToken=subToken && !row.revoked)

/- ORDER BY created_at DESC LIMIT 1. -/
def newest (rows : List Subscription) : Option Subscription :=
  rows.foldl (fun best row => match best with
    | some sub => if sub.createdAt < row.createdAt then some row else some sub
    | none => some row) none

def byUserId (pg : PgStore) (userId : String) : Except StoreError Subscription :=
  answer (newest (pg.table.filter fun row => row.userId=userId && !row.revoked))

variable {pg : PgStore}

theorem mem_table_iff {row : Subscription} : row∈pg.table ↔ pg.row row.id=some row := by
  constructor
  · intro h
    obtain ⟨⟨id,row'⟩,hentry,rfl⟩ := List.mem_map.mp h
    have hlookup := AList.mem_lookup_iff.mpr hentry
    have hid := pg.keyed id row' hlookup
    dsimp only
    rw [hid]
    exact hlookup
  · intro h
    exact List.mem_map.mpr ⟨⟨row.id,row⟩,AList.mem_lookup_iff.mp h,rfl⟩

def taken (pg : PgStore) (sub : Subscription) : Bool :=
  pg.table.any fun row => row.id≠sub.id && row.subToken=sub.subToken

variable {sub : Subscription}

theorem taken_eq_false_iff :
    pg.taken sub=false ↔
      ∀ id row, pg.row id=some row → row.subToken=sub.subToken → id=sub.id := by
  rw [taken,List.any_eq_false]
  constructor
  · intro h id row hrow htoken
    have hid : row.id=id := pg.keyed id row hrow
    by_contra hne
    refine h row (mem_table_iff.mpr (hid ▸ hrow)) ?_
    rw [Bool.and_eq_true,decide_eq_true_iff,decide_eq_true_iff,hid]
    exact ⟨hne,htoken⟩
  · intro h row hmem htaken
    rw [Bool.and_eq_true,decide_eq_true_iff,decide_eq_true_iff] at htaken
    exact htaken.1 (h row.id row (mem_table_iff.mp hmem) htaken.2)

def put (pg : PgStore) (sub : Subscription) (h : pg.taken sub=false) : PgStore where
  users := pg.users
  accepts := pg.accepts
  rows := pg.rows.insert sub.id sub
  keyed id row hrow := by
    by_cases hid : id=sub.id
    · rw [hid,AList.lookup_insert,Option.some.injEq] at hrow
      rw [← hrow,hid]
    · rw [AList.lookup_insert_ne hid] at hrow
      exact pg.keyed id row hrow
  unique id id' row row' hrow hrow' htoken := by
    rw [taken_eq_false_iff] at h
    by_cases hid : id=sub.id
    · rw [hid,AList.lookup_insert,Option.some.injEq] at hrow
      by_cases hid' : id'=sub.id
      · rw [hid,hid']
      · rw [AList.lookup_insert_ne hid'] at hrow'
        exact hid.trans (h id' row' hrow' (by rw [hrow,htoken])).symm
    · rw [AList.lookup_insert_ne hid] at hrow
      by_cases hid' : id'=sub.id
      · rw [hid',AList.lookup_insert,Option.some.injEq] at hrow'
        exact (h id row hrow (by rw [hrow',htoken])).trans hid'.symm
      · rw [AList.lookup_insert_ne hid'] at hrow'
        exact pg.unique id id' row row' hrow hrow' htoken

theorem row_put {h : pg.taken sub=false} (id : String) :
    (pg.put sub h).row id=if id=sub.id then some sub else pg.row id := by
  rw [row,put]
  dsimp only
  split_ifs with hid
  · rw [hid,AList.lookup_insert]
  · rw [AList.lookup_insert_ne hid,row]

/- The row that the upsert leaves. The conflict branch sets five columns. -/
def stored (pg : PgStore) (sub : Subscription) : Subscription :=
  match pg.row sub.id with
  | none => { sub with expiresAt := timestamptz sub.expiresAt, createdAt := timestamptz sub.createdAt }
  | some row =>
    { row with
      bytesTotal := sub.bytesTotal
      bytesUsed := sub.bytesUsed
      expiresAt := timestamptz sub.expiresAt
      revoked := sub.revoked
      subToken := sub.subToken }

def save (pg : PgStore) (sub : Subscription) : Except StoreError PgStore :=
  if !pg.accepts sub then .error (.save .refused)
  else if (pg.row sub.id).isNone && !pg.users sub.userId then .error (.save .foreignKeyViolation)
  else if h : pg.taken (pg.stored sub)=false then .ok (pg.put (pg.stored sub) h)
  else .error (.save .uniqueViolation)

theorem taken_row {id : String} {row : Subscription} (h : pg.row id=some row)
    (hid : sub.id=row.id) (htoken : sub.subToken=row.subToken) : pg.taken sub=false := by
  rw [taken_eq_false_iff,hid,htoken,pg.keyed id row h]
  exact fun id' row' hrow' htoken' => pg.unique id' id row' row hrow' h htoken'

def updateUsage (pg : PgStore) (subId : String) (bytesDelta : Int) : Except StoreError PgStore :=
  match h : pg.row subId with
  | none => .error .notFound
  | some row =>
    if wrap64 (row.bytesUsed+bytesDelta)≠row.bytesUsed+bytesDelta then
      .error (.updateUsage .outOfRange)
    else .ok (pg.put (row.addUsage bytesDelta) (taken_row h rfl rfl))

end PgStore

def pgStore : Backend PgStore where
  byToken := PgStore.byToken
  byUserId := PgStore.byUserId
  updateUsage := PgStore.updateUsage
  save := PgStore.save

/- What was last saved under each identifier, with the usage added since. -/
abbrev Ledger := String → Option Subscription

def Ledger.apply (m : Ledger) : Op → Ledger
  | .save sub => update m sub.id (some sub)
  | .updateUsage subId bytesDelta =>
    update m subId ((m subId).map (Subscription.addUsage bytesDelta))

def LiveAt (m : Ledger) (t : String) (sub : Subscription) : Prop :=
  m sub.id=some sub ∧ sub.revoked=false ∧ sub.subToken=t

/- Every token gives a live subscription that carries it, or is not found when there is none. -/
def ReadsBack {β : Type*} (b : Backend β) (store : β) (m : Ledger) : Prop :=
  ∀ t, match b.byToken store t with
    | .ok sub => LiveAt m t sub
    | .error err => err = .notFound ∧ ∀ sub, ¬ LiveAt m t sub

def UniqueTokens (m : Ledger) : Prop :=
  ∀ t, t ≠ "" → ∀ sub sub', LiveAt m t sub → LiveAt m t sub' → sub.id=sub'.id

/- A store beside the ledger; a call that fails is not entered. -/
structure Watch (β : Type*) where
  store : β
  ledger : Ledger

def Watch.handle {β : Type*} (b : Backend β) (w : Watch β) (op : Op) : Watch β :=
  match b.apply w.store op with
  | .ok store => ⟨store,w.ledger.apply op⟩
  | .error _ => w

theorem watch_ok {β : Type*} {b : Backend β} {w : Watch β} {op : Op} {store : β}
    (h : b.apply w.store op = .ok store) : w.handle b op=⟨store,w.ledger.apply op⟩ := by
  rw [Watch.handle,h]

theorem watch_error {β : Type*} {b : Backend β} {w : Watch β} {op : Op} {err : StoreError}
    (h : b.apply w.store op = .error err) : w.handle b op=w := by
  rw [Watch.handle,h]

section
variable {s : MemStore} {m : Ledger}

/- The token index of the map in memory holds the latest record of each subscription that has a
   token, and nothing else. -/
structure MemInv (s : MemStore) (m : Ledger) : Prop where
  absent : ∀ id, m id=none → s.subs id=none
  object : ∀ id r, m id=some r → ∃ p obj, s.subs id=some p ∧ s.objects[p]? = some obj ∧
    obj.id=id ∧ (r.subToken ≠ "" → obj=r)
  keyed : ∀ id r, m id=some r → r.id=id
  indexed : ∀ t p, s.subsByToken t=some p ↔
    t ≠ "" ∧ ∃ id r, s.subs id=some p ∧ m id=some r ∧ r.subToken=t
  live : ∀ id r, m id=some r → (r.revoked=true ↔ r.subToken = "")

variable {p : Nat} {id subId : String} {r sub : Subscription} {idx : String → Option Nat}
  {bytesDelta : Int}

theorem MemStore.byToken_eq_ok {t : String} {obj : Subscription} (hp : s.subsByToken t=some p)
    (hobj : s.objects[p]? = some obj) : s.byToken t = .ok obj := by
  rw [byToken,deref,hp,Option.bind_some,hobj]

theorem MemStore.byToken_eq_error {t : String} (hp : s.subsByToken t=none) :
    s.byToken t = .error .notFound := by
  rw [byToken,deref,hp,Option.bind_none]

theorem MemInv.byToken (h : MemInv s m) (hr : m id=some r) (htoken : r.subToken ≠ "") : s.byToken r.subToken = .ok r := by
  obtain ⟨p,obj,hp,hobj,-,heq⟩ := h.object id r hr
  rw [heq htoken] at hobj
  exact MemStore.byToken_eq_ok ((h.indexed _ p).mpr ⟨htoken,id,r,hp,hr,rfl⟩) hobj

theorem MemInv.liveAt (h : MemInv s m) (hr : m id=some r) (htoken : r.subToken ≠ "") : LiveAt m r.subToken r := by
  refine ⟨by rw [h.keyed id r hr,hr],?_,rfl⟩
  rw [← Bool.not_eq_true,h.live id r hr]
  exact htoken

theorem MemInv.readsBack (h : MemInv s m) : ReadsBack memStore s m := by
  intro t
  show match s.byToken t with
    | .ok sub => LiveAt m t sub
    | .error err => err = .notFound ∧ ∀ sub, ¬ LiveAt m t sub
  cases hp : s.subsByToken t with
  | some p =>
    obtain ⟨ht,id,r,-,hr,rfl⟩ := (h.indexed t p).mp hp
    rw [h.byToken hr ht]
    exact h.liveAt hr ht
  | none =>
    rw [MemStore.byToken_eq_error hp]
    refine ⟨rfl,fun sub hlive => ?_⟩
    obtain ⟨hsub,hrevoked,rfl⟩ := hlive
    obtain ⟨p,-,hsubs,-⟩ := h.object _ _ hsub
    have htoken : sub.subToken ≠ "" := by
      intro hempty
      rw [(h.live _ _ hsub).mpr hempty] at hrevoked
      cases hrevoked
    rw [(h.indexed _ p).mpr ⟨htoken,_,_,hsubs,hsub,rfl⟩] at hp
    cases hp

/- A live subscription is saved with a token, a revoked one without, a token once saved stays, and
   no usage runs over. -/
def MemKeeps (m : Ledger) : Op → Prop
  | .save sub => (sub.revoked=true ↔ sub.subToken = "") ∧
      ∀ old, m sub.id=some old → old.subToken ≠ "" → old.subToken=sub.subToken
  | .updateUsage subId bytesDelta => ∀ r, m subId=some r → r.subToken ≠ "" →
      MemStore.addUsage bytesDelta r=r.addUsage bytesDelta

theorem MemStore.index_of_ne {t key : String} (h : t≠key) : index key p idx t=idx t := by
  rw [index]
  split_ifs
  · rfl
  · exact update_of_ne h _ _

theorem MemStore.index_self {key : String} (h : key ≠ "") : index key p idx key=some p := by
  rw [index,if_neg h,update_self]

theorem Ledger.save_self (m : Ledger) (sub : Subscription) : m.apply (.save sub) sub.id=some sub :=
  update_self _ _ _

theorem Ledger.save_of_ne (h : id≠sub.id) : m.apply (.save sub) id=m id :=
  update_of_ne h _ _

theorem Ledger.save_cases (h : m.apply (.save sub) id=some r) :
    (id=sub.id ∧ r=sub) ∨ (id≠sub.id ∧ m id=some r) := by
  by_cases hid : id=sub.id
  · rw [hid,save_self,Option.some.injEq] at h
    exact .inl ⟨hid,h.symm⟩
  · rw [save_of_ne hid] at h
    exact .inr ⟨hid,h⟩

theorem MemInv.save_indexed (h : MemInv s m) (hunique : UniqueTokens (m.apply (.save sub)))
    (hkeeps : MemKeeps m (.save sub)) (t : String) (p : Nat) :
    (s.save sub).subsByToken t=some p ↔
      t ≠ "" ∧ ∃ id r, (s.save sub).subs id=some p ∧ m.apply (.save sub) id=some r ∧ r.subToken=t := by
  obtain ⟨hlive,hold⟩ := hkeeps
  have hsubs : ∀ id, id≠sub.id → (s.save sub).subs id=s.subs id :=
    fun id hid => update_of_ne hid _ _
  by_cases htoken : t=sub.subToken
  · by_cases hempty : t = ""
    · refine iff_of_false (fun hp => ?_) fun hp => hp.1 hempty
      have hnone : (s.save sub).subsByToken t=s.subsByToken t := by
        rw [MemStore.save,MemStore.index,if_pos (htoken ▸ hempty)]
      exact ((h.indexed t p).mp (hnone ▸ hp)).1 hempty
    · have hself : (s.save sub).subsByToken t=some s.objects.length := by
        rw [htoken] at hempty ⊢
        exact MemStore.index_self hempty
      have hpointer : (s.save sub).subs sub.id=some s.objects.length := update_self _ _ _
      have hsub : LiveAt (m.apply (.save sub)) t sub := by
        refine ⟨Ledger.save_self m sub,?_,htoken.symm⟩
        rw [← Bool.not_eq_true,hlive,← htoken]
        exact hempty
      rw [hself,← hpointer]
      constructor
      · intro hp
        exact ⟨hempty,sub.id,sub,hp,Ledger.save_self m sub,htoken.symm⟩
      · rintro ⟨-,id,r,hp,hr,hrt⟩
        -- the token is carried by no other live record
        obtain ⟨rfl,-⟩ | ⟨hid,hr'⟩ := Ledger.save_cases hr
        · exact hp
        · have hrlive := h.liveAt hr' (hrt ▸ hempty)
          have hrid := h.keyed id r hr'
          have hother : LiveAt (m.apply (.save sub)) t r := ⟨by rw [hrid,hr],hrlive.2.1,hrt⟩
          exact absurd (hrid.symm.trans (hunique t hempty r sub hother hsub)) hid
  · have hkept : (s.save sub).subsByToken t=s.subsByToken t := MemStore.index_of_ne htoken
    rw [hkept,h.indexed]
    refine and_congr_right fun hempty => ⟨?_,?_⟩
    · rintro ⟨id,r,hp,hr,hrt⟩
      have hid : id≠sub.id := by
        rintro rfl
        exact htoken (hrt ▸ hold r hr (hrt ▸ hempty))
      exact ⟨id,r,(hsubs id hid).trans hp,(Ledger.save_of_ne hid).trans hr,hrt⟩
    · rintro ⟨id,r,hp,hr,hrt⟩
      obtain ⟨-,rfl⟩ | ⟨hid,hr'⟩ := Ledger.save_cases hr
      · exact absurd hrt.symm htoken
      · exact ⟨id,r,(hsubs id hid).symm.trans hp,hr',hrt⟩

theorem MemInv.save (h : MemInv s m) (hunique : UniqueTokens (m.apply (.save sub)))
    (hkeeps : MemKeeps m (.save sub)) : MemInv (s.save sub) (m.apply (.save sub)) where
  absent := by
    intro id hnone
    have hid : id≠sub.id := by
      rintro rfl
      rw [Ledger.save_self] at hnone
      cases hnone
    rw [Ledger.save_of_ne hid] at hnone
    exact (update_of_ne hid _ _).trans (h.absent id hnone)
  object := by
    intro id r hr
    obtain ⟨rfl,rfl⟩ | ⟨hid,hr'⟩ := Ledger.save_cases hr
    · exact ⟨s.objects.length,r,update_self _ _ _,by simp [MemStore.save],rfl,fun _ => rfl⟩
    · obtain ⟨p,obj,hp,hobj,hrest⟩ := h.object id r hr'
      refine ⟨p,obj,(update_of_ne hid _ _).trans hp,?_,hrest⟩
      obtain ⟨hlt,-⟩ := List.getElem?_eq_some_iff.mp hobj
      exact (List.getElem?_append_left hlt).trans hobj
  keyed := by
    intro id r hr
    obtain ⟨rfl,rfl⟩ | ⟨-,hr'⟩ := Ledger.save_cases hr
    · rfl
    · exact h.keyed id r hr'
  indexed := h.save_indexed hunique hkeeps
  live := by
    intro id r hr
    obtain ⟨-,rfl⟩ | ⟨-,hr'⟩ := Ledger.save_cases hr
    · exact hkeeps.1
    · exact h.live id r hr'

theorem Ledger.updateUsage_cases (h : m.apply (.updateUsage subId bytesDelta) id=some r) :
    (id=subId ∧ ∃ old, m subId=some old ∧ r = old.addUsage bytesDelta) ∨ (id≠subId ∧ m id=some r) := by
  rw [Ledger.apply,update_apply] at h
  split_ifs at h with hid
  · obtain ⟨old,hold,hr⟩ := Option.map_eq_some_iff.mp h
    exact .inl ⟨hid,old,hold,hr.symm⟩
  · exact .inr ⟨hid,h⟩

theorem Ledger.updateUsage_self {old : Subscription} (h : m subId=some old) (bytesDelta : Int) :
    m.apply (.updateUsage subId bytesDelta) subId=some (old.addUsage bytesDelta) := by
  rw [Ledger.apply,update_self,h,Option.map_some]

theorem Ledger.updateUsage_of_ne (h : id≠subId) (bytesDelta : Int) :
    m.apply (.updateUsage subId bytesDelta) id=m id :=
  update_of_ne h _ _

/-- Every record of the ledger after an update comes from one before it, with its token. -/
theorem Ledger.updateUsage_from (h : m.apply (.updateUsage subId bytesDelta) id=some r) :
    ∃ old, m id=some old ∧ old.id=r.id ∧ old.subToken=r.subToken ∧ old.revoked=r.revoked := by
  obtain ⟨rfl,old,hold,rfl⟩ | ⟨-,hr⟩ := Ledger.updateUsage_cases h
  · exact ⟨old,hold,rfl,rfl,rfl⟩
  · exact ⟨r,hr,rfl,rfl,rfl⟩

theorem Ledger.updateUsage_to {old : Subscription} (h : m id=some old) (bytesDelta : Int) :
    ∃ r, m.apply (.updateUsage subId bytesDelta) id=some r ∧ r.subToken = old.subToken := by
  by_cases hid : id=subId
  · subst hid
    exact ⟨_,Ledger.updateUsage_self h bytesDelta,rfl⟩
  · exact ⟨old,(Ledger.updateUsage_of_ne hid bytesDelta).trans h,rfl⟩

theorem MemInv.object_of_subs (h : MemInv s m) (hp : s.subs id=some p) :
    ∃ obj, s.objects[p]? = some obj ∧ obj.id=id := by
  cases hm : m id with
  | none =>
    rw [h.absent id hm] at hp
    cases hp
  | some r =>
    obtain ⟨q,obj,hq,hobj,hid,-⟩ := h.object id r hm
    rw [hp,Option.some.injEq] at hq
    subst hq
    exact ⟨obj,hobj,hid⟩

theorem MemInv.subs_injective (h : MemInv s m) {id' : String} (hp : s.subs id=some p)
    (hp' : s.subs id'=some p) : id=id' := by
  obtain ⟨obj,hobj,rfl⟩ := h.object_of_subs hp
  obtain ⟨obj',hobj',rfl⟩ := h.object_of_subs hp'
  rw [hobj,Option.some.injEq] at hobj'
  rw [hobj']

theorem MemInv.updateUsage (h : MemInv s m) (hp : s.subs subId=some p)
    (hkeeps : MemKeeps m (.updateUsage subId bytesDelta)) :
    MemInv { s with objects := s.objects.modify p (MemStore.addUsage bytesDelta) }
      (m.apply (.updateUsage subId bytesDelta)) where
  absent := by
    intro id hnone
    refine h.absent id (Option.eq_none_iff_forall_ne_some.mpr fun old hold => ?_)
    obtain ⟨r,hr,-⟩ := Ledger.updateUsage_to hold bytesDelta
    rw [hr] at hnone
    cases hnone
  object := by
    intro id r hr
    obtain ⟨rfl,old,hold,rfl⟩ | ⟨hid,hr'⟩ := Ledger.updateUsage_cases hr
    · obtain ⟨p',obj,hp',hobj,hobjid,heq⟩ := h.object _ old hold
      rw [hp,Option.some.injEq] at hp'
      subst hp'
      refine ⟨p,MemStore.addUsage bytesDelta obj,hp,?_,hobjid,fun htoken => ?_⟩
      · dsimp only
        rw [List.getElem?_modify_eq,hobj]
        rfl
      · rw [heq htoken]
        exact hkeeps old hold htoken
    · obtain ⟨p',obj,hp',hobj,hobjid,heq⟩ := h.object id r hr'
      refine ⟨p',obj,hp',?_,hobjid,heq⟩
      have hne : p≠p' := by
        rintro rfl
        exact hid (h.subs_injective hp' hp)
      dsimp only
      rw [List.getElem?_modify_ne _ _ hne,hobj]
  keyed := by
    intro id r hr
    obtain ⟨old,hold,hid,-⟩ := Ledger.updateUsage_from hr
    rw [← hid]
    exact h.keyed id old hold
  indexed := by
    intro t q
    rw [h.indexed t q]
    refine and_congr_right fun _ => ⟨?_,?_⟩
    · rintro ⟨id,old,hq,hold,hrt⟩
      obtain ⟨r,hr,htoken⟩ := Ledger.updateUsage_to hold bytesDelta
      exact ⟨id,r,hq,hr,htoken.trans hrt⟩
    · rintro ⟨id,r,hq,hr,hrt⟩
      obtain ⟨old,hold,-,htoken,-⟩ := Ledger.updateUsage_from hr
      exact ⟨id,old,hq,hold,htoken.trans hrt⟩
  live := by
    intro id r hr
    obtain ⟨old,hold,-,htoken,hrevoked⟩ := Ledger.updateUsage_from hr
    rw [← htoken,← hrevoked]
    exact h.live id old hold

/-- What the map in memory has to be given for its next answers to be right. -/
theorem MemInv.keeps_of_readsBack_save (h : MemInv s m)
    (hreads : ReadsBack memStore (s.save sub) (m.apply (.save sub))) : MemKeeps m (.save sub) := by
  have hanswer : ∀ t obj, (s.save sub).byToken t = .ok obj → LiveAt (m.apply (.save sub)) t obj := by
    intro t obj hobj
    have ht := hreads t
    rw [show memStore.byToken (s.save sub) t = .ok obj from hobj] at ht
    exact ht
  have hsaved : (s.save sub).objects[s.objects.length]? = some sub := by simp [MemStore.save]
  refine ⟨⟨fun hrevoked => ?_,fun hempty => ?_⟩,fun old hold htoken => ?_⟩
  · -- a revoked subscription under its token would be found
    by_contra htoken
    have hlive := hanswer _ _ (MemStore.byToken_eq_ok (MemStore.index_self htoken) hsaved)
    rw [hlive.2.1] at hrevoked
    cases hrevoked
  · -- the empty token is never indexed
    have hnone : (s.save sub).subsByToken "" = none := by
      rw [MemStore.save,MemStore.index,if_pos hempty]
      refine Option.eq_none_iff_forall_ne_some.mpr fun p hp => ?_
      exact ((h.indexed "" p).mp hp).1 rfl
    have ht := hreads ""
    rw [show memStore.byToken (s.save sub) "" = .error .notFound from MemStore.byToken_eq_error hnone] at ht
    by_contra hrevoked
    exact ht.2 sub ⟨Ledger.save_self m sub,by simpa using hrevoked,hempty⟩
  · -- the token that was saved before still points to the record that was saved with it
    by_contra hne
    obtain ⟨p,obj,hp,hobj,-,heq⟩ := h.object _ old hold
    rw [heq htoken] at hobj
    have hindex : (s.save sub).subsByToken old.subToken=some p :=
      (MemStore.index_of_ne hne).trans ((h.indexed _ p).mpr ⟨htoken,_,old,hp,hold,rfl⟩)
    obtain ⟨hlt,-⟩ := List.getElem?_eq_some_iff.mp hobj
    have hobj' : (s.save sub).objects[p]? = some old := (List.getElem?_append_left hlt).trans hobj
    have hlive := hanswer _ _ (MemStore.byToken_eq_ok hindex hobj')
    have hid := h.keyed _ old hold
    have hlatest := hlive.1
    rw [hid,Ledger.save_self,Option.some.injEq] at hlatest
    exact hne (by rw [hlatest])

theorem MemInv.keeps_of_readsBack_updateUsage (h : MemInv s m) (hp : s.subs subId=some p)
    (hreads : ReadsBack memStore { s with objects := s.objects.modify p (MemStore.addUsage bytesDelta) } (m.apply (.updateUsage subId bytesDelta))) : MemKeeps m (.updateUsage subId bytesDelta) := by
  intro r hr htoken
  obtain ⟨p',obj,hp',hobj,-,heq⟩ := h.object subId r hr
  rw [hp,Option.some.injEq] at hp'
  rw [← hp',heq htoken] at hobj
  have hindex : s.subsByToken r.subToken=some p := (h.indexed _ p).mpr ⟨htoken,_,r,hp,hr,rfl⟩
  have hobj' : (s.objects.modify p (MemStore.addUsage bytesDelta))[p]? =
      some (MemStore.addUsage bytesDelta r) := by
    rw [List.getElem?_modify_eq,hobj]
    rfl
  have ht := hreads r.subToken
  rw [show memStore.byToken { s with objects := s.objects.modify p (MemStore.addUsage bytesDelta) } r.subToken =
    .ok (MemStore.addUsage bytesDelta r) from MemStore.byToken_eq_ok hindex hobj'] at ht
  have hlatest := ht.1
  rw [show (MemStore.addUsage bytesDelta r).id=subId from h.keyed subId r hr,
    Ledger.updateUsage_self hr,Option.some.injEq] at hlatest
  exact hlatest.symm
end

section
variable {pg : PgStore} {m : Ledger}

/- A row that is not revoked is the latest record; of a revoked one the table keeps at least that,
   and its token. -/
structure PgInv (pg : PgStore) (m : Ledger) : Prop where
  absent : ∀ id, m id=none → pg.row id=none
  present : ∀ id r, m id=some r → r.id=id ∧ ∃ row, pg.row id=some row ∧ row.revoked=r.revoked ∧
    row.subToken=r.subToken ∧ (r.revoked=false → row=r)

def PgStore.Visible (pg : PgStore) (t : String) (row : Subscription) : Prop :=
  pg.row row.id=some row ∧ row.revoked=false ∧ row.subToken=t

variable {t : String} {sub : Subscription}

theorem PgStore.visible_iff {row : Subscription} :
    pg.Visible t row ↔ row∈pg.table ∧ (row.subToken=t && !row.revoked)=true := by
  rw [Visible,mem_table_iff,Bool.and_eq_true,decide_eq_true_iff,Bool.not_eq_true']
  exact and_congr_right fun _ => and_comm

theorem PgStore.byToken_of_visible {row : Subscription} (h : pg.Visible t row) :
    pg.byToken t = .ok row := by
  obtain ⟨hmem,hsat⟩ := visible_iff.mp h
  cases hfind : pg.table.find? (fun row => row.subToken=t && !row.revoked) with
  | none => exact absurd hsat (List.find?_eq_none.mp hfind row hmem)
  | some row' =>
    have hsat' := List.find?_some hfind
    have h' : pg.Visible t row' := visible_iff.mpr ⟨List.mem_of_find?_eq_some hfind,hsat'⟩
    have hid := pg.unique _ _ row' row h'.1 h.1 (h'.2.2.trans h.2.2.symm)
    have heq : some row'=some row := by rw [← h'.1,← h.1,hid]
    rw [byToken,hfind,heq]
    rfl

theorem PgStore.byToken_of_not_visible (h : ∀ row, ¬ pg.Visible t row) :
    pg.byToken t = .error .notFound := by
  have hnone : pg.table.find? (fun row => row.subToken=t && !row.revoked)=none :=
    List.find?_eq_none.mpr fun row hmem hsat => h row (visible_iff.mpr ⟨hmem,hsat⟩)
  rw [byToken,hnone]
  rfl

theorem PgInv.visible_iff (h : PgInv pg m) : pg.Visible t sub ↔ LiveAt m t sub := by
  constructor
  · rintro ⟨hrow,hrevoked,htoken⟩
    cases hm : m sub.id with
    | none =>
      rw [h.absent _ hm] at hrow
      cases hrow
    | some r =>
      obtain ⟨-,row,hrow',hr,-,heq⟩ := h.present _ r hm
      rw [hrow,Option.some.injEq] at hrow'
      rw [← hrow'] at hr heq
      exact ⟨by rw [hm,heq (hr.symm.trans hrevoked)],hrevoked,htoken⟩
  · rintro ⟨hm,hrevoked,htoken⟩
    obtain ⟨-,row,hrow,-,-,heq⟩ := h.present _ sub hm
    exact ⟨by rw [hrow,heq hrevoked],hrevoked,htoken⟩

theorem PgInv.readsBack (h : PgInv pg m) : ReadsBack pgStore pg m := by
  intro t
  by_cases hvisible : ∃ row, pg.Visible t row
  · obtain ⟨row,hrow⟩ := hvisible
    rw [show pgStore.byToken pg t = .ok row from PgStore.byToken_of_visible hrow]
    exact h.visible_iff.mp hrow
  · have hnone := not_exists.mp hvisible
    rw [show pgStore.byToken pg t = .error .notFound from PgStore.byToken_of_not_visible hnone]
    exact ⟨rfl,fun sub hlive => hnone sub (h.visible_iff.mpr hlive)⟩

theorem PgStore.stored_id (pg : PgStore) (sub : Subscription) : (pg.stored sub).id=sub.id := by
  rw [stored]
  split
  · rfl
  · rename_i row hrow
    exact pg.keyed sub.id row hrow

theorem PgStore.stored_revoked (pg : PgStore) (sub : Subscription) : (pg.stored sub).revoked=sub.revoked := by
  rw [stored]
  split <;> rfl

theorem PgStore.stored_subToken (pg : PgStore) (sub : Subscription) :
    (pg.stored sub).subToken=sub.subToken := by
  rw [stored]
  split <;> rfl

/- The columns that the upsert leaves alone have what is saved, and the times are whole microseconds. -/
def PgStore.Exact (pg : PgStore) (sub : Subscription) : Prop :=
  timestamptz sub.expiresAt=sub.expiresAt ∧
    match pg.row sub.id with
    | none => timestamptz sub.createdAt=sub.createdAt
    | some row => row.userId=sub.userId ∧ row.planId=sub.planId ∧ row.createdAt=sub.createdAt

theorem PgStore.stored_eq_iff : pg.stored sub=sub ↔ pg.Exact sub := by
  rw [stored,Exact]
  split
  · rw [Subscription.ext_iff]
    simp
  · rename_i row hrow
    have hid : row.id=sub.id := pg.keyed sub.id row hrow
    rw [Subscription.ext_iff]
    simp [hid]
    tauto

def PgKeeps (pg : PgStore) : Op → Prop
  | .save sub => ∀ pg', pg.save sub = .ok pg' → sub.revoked=false → pg.Exact sub
  | .updateUsage _ _ => True

variable {pg' : PgStore}

theorem PgStore.save_cases (h : pg.save sub = .ok pg') :
    ∃ hfree : pg.taken (pg.stored sub)=false, pg'=pg.put (pg.stored sub) hfree := by
  rw [save] at h
  split_ifs at h with _ _ hfree
  exact ⟨hfree,(Except.ok.inj h).symm⟩

theorem PgStore.updateUsage_cases {subId : String} {bytesDelta : Int}
    (h : pg.updateUsage subId bytesDelta = .ok pg') :
    ∃ row, pg.row subId=some row ∧
      ∃ hfree : pg.taken (row.addUsage bytesDelta)=false, pg'=pg.put (row.addUsage bytesDelta) hfree := by
  rw [updateUsage] at h
  split at h
  · cases h
  · rename_i row hrow
    split_ifs at h
    exact ⟨row,hrow,taken_row hrow rfl rfl,(Except.ok.inj h).symm⟩

theorem PgInv.save (h : PgInv pg m) (hsave : pg.save sub = .ok pg')
    (hkeeps : PgKeeps pg (.save sub)) : PgInv pg' (m.apply (.save sub)) := by
  have hexact : sub.revoked=false → pg.stored sub=sub :=
    fun hrevoked => PgStore.stored_eq_iff.mpr (hkeeps pg' hsave hrevoked)
  obtain ⟨hfree,rfl⟩ := PgStore.save_cases hsave
  constructor
  · intro id hnone
    have hid : id≠sub.id := by
      rintro rfl
      rw [Ledger.save_self] at hnone
      cases hnone
    rw [Ledger.save_of_ne hid] at hnone
    rw [PgStore.row_put,PgStore.stored_id,if_neg hid]
    exact h.absent id hnone
  · intro id r hr
    rw [PgStore.row_put,PgStore.stored_id]
    obtain ⟨rfl,rfl⟩ | ⟨hid,hr'⟩ := Ledger.save_cases hr
    · rw [if_pos rfl]
      exact ⟨rfl,_,rfl,pg.stored_revoked r,pg.stored_subToken r,hexact⟩
    · rw [if_neg hid]
      exact h.present id r hr'

theorem PgInv.updateUsage (h : PgInv pg m) {subId : String} {bytesDelta : Int}
    (hupdate : pg.updateUsage subId bytesDelta = .ok pg') :
    PgInv pg' (m.apply (.updateUsage subId bytesDelta)) := by
  obtain ⟨row,hrow,hfree,rfl⟩ := PgStore.updateUsage_cases hupdate
  have hrowid : (row.addUsage bytesDelta).id=subId := pg.keyed subId row hrow
  constructor
  · intro id hnone
    have hbefore : m id=none := by
      refine Option.eq_none_iff_forall_ne_some.mpr fun old hold => ?_
      obtain ⟨r,hr,-⟩ := Ledger.updateUsage_to hold bytesDelta
      rw [hr] at hnone
      cases hnone
    rw [PgStore.row_put,hrowid,if_neg]
    · exact h.absent id hbefore
    · rintro rfl
      rw [h.absent _ hbefore] at hrow
      cases hrow
  · intro id r hr
    rw [PgStore.row_put,hrowid]
    obtain ⟨rfl,old,hold,rfl⟩ | ⟨hid,hr'⟩ := Ledger.updateUsage_cases hr
    · obtain ⟨hid,row',hrow',hrevoked,htoken,heq⟩ := h.present _ old hold
      rw [hrow,Option.some.injEq] at hrow'
      rw [if_pos rfl]
      rw [← hrow'] at hrevoked htoken heq
      exact ⟨hid,_,rfl,hrevoked,htoken,fun hlive => by rw [heq hlive]⟩
    · rw [if_neg hid]
      exact h.present id r hr'

/-- What the table has to be given for its next answers to be right. -/
theorem PgInv.keeps_of_readsBack_save (hsave : pg.save sub = .ok pg')
    (hreads : ReadsBack pgStore pg' (m.apply (.save sub))) : PgKeeps pg (.save sub) := by
  intro _ _ hrevoked
  obtain ⟨hfree,rfl⟩ := PgStore.save_cases hsave
  have hvisible : (pg.put (pg.stored sub) hfree).Visible sub.subToken (pg.stored sub) :=
    ⟨by rw [PgStore.row_put,if_pos rfl],by rw [pg.stored_revoked,hrevoked],pg.stored_subToken sub⟩
  have ht := hreads sub.subToken
  rw [show pgStore.byToken _ _=_ from PgStore.byToken_of_visible hvisible] at ht
  have hlatest := ht.1
  rw [pg.stored_id,Ledger.save_self,Option.some.injEq] at hlatest
  exact PgStore.stored_eq_iff.mp hlatest.symm
end

section
variable {op : Op}

theorem MemInv.handle {w : Watch MemStore} (h : MemInv w.store w.ledger)
    (hunique : UniqueTokens (w.handle memStore op).ledger) (hkeeps : MemKeeps w.ledger op) :
    MemInv (w.handle memStore op).store (w.handle memStore op).ledger := by
  cases op with
  | save sub => exact h.save hunique hkeeps
  | updateUsage subId bytesDelta =>
    cases hp : w.store.subs subId with
    | none =>
      rw [watch_error (show memStore.apply w.store _ = .error .notFound by
        simp [Backend.apply,memStore,MemStore.updateUsage,hp])]
      exact h
    | some p =>
      rw [watch_ok (show memStore.apply w.store _ = .ok _ by
        simp [Backend.apply,memStore,MemStore.updateUsage,hp]; rfl)]
      exact h.updateUsage hp hkeeps

theorem MemInv.readsBack_handle_iff {w : Watch MemStore} (h : MemInv w.store w.ledger)
    (hunique : UniqueTokens (w.handle memStore op).ledger) :
    ReadsBack memStore (w.handle memStore op).store (w.handle memStore op).ledger ↔ MemKeeps w.ledger op := by
  refine ⟨fun hreads => ?_,fun hkeeps => (h.handle hunique hkeeps).readsBack⟩
  cases op with
  | save sub => exact h.keeps_of_readsBack_save hreads
  | updateUsage subId bytesDelta =>
    cases hp : w.store.subs subId with
    | none =>
      intro r hr
      obtain ⟨p,-,hp',-⟩ := h.object subId r hr
      rw [hp] at hp'
      cases hp'
    | some p =>
      rw [watch_ok (show memStore.apply w.store _ = .ok _ by
        simp [Backend.apply,memStore,MemStore.updateUsage,hp]; rfl)] at hreads
      exact h.keeps_of_readsBack_updateUsage hp hreads

theorem PgInv.handle {w : Watch PgStore} (h : PgInv w.store w.ledger)
    (hkeeps : PgKeeps w.store op) : PgInv (w.handle pgStore op).store (w.handle pgStore op).ledger := by
  cases hop : pgStore.apply w.store op with
  | error err =>
    rw [watch_error hop]
    exact h
  | ok pg =>
    rw [watch_ok hop]
    cases op with
    | save sub => exact h.save hop hkeeps
    | updateUsage subId bytesDelta => exact h.updateUsage hop

theorem PgInv.readsBack_handle_iff {w : Watch PgStore} (h : PgInv w.store w.ledger) :
    ReadsBack pgStore (w.handle pgStore op).store (w.handle pgStore op).ledger ↔ PgKeeps w.store op := by
  refine ⟨fun hreads => ?_,fun hkeeps => (h.handle hkeeps).readsBack⟩
  cases op with
  | updateUsage subId bytesDelta => trivial
  | save sub =>
    cases hop : pgStore.apply w.store (.save sub) with
    | error err =>
      intro pg' hsave
      cases hop.symm.trans hsave
    | ok pg =>
      rw [watch_ok hop] at hreads
      exact PgInv.keeps_of_readsBack_save hop hreads

/-- Along every history of calls whose live subscriptions have tokens of their own, the map in memory
reads back what was saved exactly if tokens are neither rotated nor revoked, and the table exactly if
no live subscription is saved with another user, plan or time of creation than its row has. -/
theorem reads_back_iff (users : String → Bool) (accepts : Subscription → Bool) (ops : List Op)
    (hunique : ∀ before after, ops=before++after →
      UniqueTokens (before.foldl (Watch.handle memStore) ⟨.new,fun _ => none⟩).ledger) :
    ((∀ before after, ops=before++after →
        let w := before.foldl (Watch.handle memStore) ⟨.new,fun _ => none⟩
        ReadsBack memStore w.store w.ledger) ↔
      ∀ before op after, ops=before++op::after →
        MemKeeps (before.foldl (Watch.handle memStore) ⟨.new,fun _ => none⟩).ledger op) ∧
    ((∀ before after, ops=before++after →
        let w := before.foldl (Watch.handle pgStore) ⟨.new users accepts,fun _ => none⟩
        ReadsBack pgStore w.store w.ledger) ↔
      ∀ before op after, ops=before++op::after →
        PgKeeps (before.foldl (Watch.handle pgStore) ⟨.new users accepts,fun _ => none⟩).store op) := by
  have hmem : MemInv MemStore.new fun _ => none :=
    ⟨fun _ _ => rfl,by rintro _ _ ⟨⟩,by rintro _ _ ⟨⟩,by simp [MemStore.new],by rintro _ _ ⟨⟩⟩
  have hpg : PgInv (PgStore.new users accepts) fun _ => none := ⟨fun _ _ => rfl,by rintro _ _ ⟨⟩⟩
  constructor
  · exact foldl_holds_iff_of_good (fun w => UniqueTokens w.ledger)
      (fun w : Watch MemStore => MemInv w.store w.ledger) (fun w h => h.readsBack)
      (fun w op h hgood => h.readsBack_handle_iff hgood) (fun w op h hgood => h.handle hgood) ops hmem hunique
  · exact foldl_holds_iff (fun w : Watch PgStore => PgInv w.store w.ledger) (fun w h => h.readsBack)
      (fun w op h => h.readsBack_handle_iff) (fun w op h => h.handle) ops hpg
end

theorem uniqueTokens_of_one {m : Ledger} {only : String} (h : ∀ id, id≠only → m id=none) :
    UniqueTokens m := by
  have hone : ∀ t sub, LiveAt m t sub → sub.id = only := by
    intro t sub hlive
    by_contra hid
    have hsub := hlive.1
    rw [h _ hid] at hsub
    cases hsub
  exact fun t _ sub sub' hsub hsub' => (hone t sub hsub).trans (hone t sub' hsub').symm

def Op.target : Op → String
  | .save sub => sub.id
  | .updateUsage subId _ => subId

theorem Ledger.apply_of_ne {m : Ledger} {op : Op} {id : String} (h : id≠op.target) : m.apply op id=m id := by
  cases op with
  | save sub => exact Ledger.save_of_ne h
  | updateUsage subId bytesDelta => exact Ledger.updateUsage_of_ne h bytesDelta

/-- Calls that all name one subscription keep the tokens unique. -/
theorem uniqueTokens_along (only : String) {ops : List Op} (hops : ∀ op∈ops, op.target = only)
    (before after : List Op) (h : ops=before++after) :
    UniqueTokens (before.foldl (Watch.handle memStore) ⟨.new,fun _ => none⟩).ledger := by
  have hbefore : ∀ op∈before, op.target = only :=
    fun op hop => hops op (h ▸ List.mem_append_left after hop)
  have hrun := (run_foldl (Watch.handle memStore) before ⟨.new,fun _ => none⟩).labels hbefore
  have hstep : ∀ (w : Watch MemStore) (op : Op) (w' : Watch MemStore),
      (∀ id, id≠only → w.ledger id=none) → op.target = only ∧ w'=w.handle memStore op →
        ∀ id, id≠only → w'.ledger id=none := by
    rintro w op _ hw ⟨rfl,rfl⟩ id hid
    rw [Watch.handle]
    split
    · exact (Ledger.apply_of_ne hid).trans (hw id hid)
    · exact hw id hid
  exact uniqueTokens_of_one (hrun.invariant (fun _ _ => rfl) hstep)

def demo : Subscription :=
  ⟨"sub-demo-001", "user-demo", "pro",50000000000,12500000000,2592000000000000,false,
    "demo-token-aether-x-2026",0⟩

def season : List Op := [.save demo,.updateUsage "sub-demo-001" 4096]

theorem reads_back_iff_season :
    ReadsBack memStore (season.foldl (Watch.handle memStore) ⟨.new,fun _ => none⟩).store
        (season.foldl (Watch.handle memStore) ⟨.new,fun _ => none⟩).ledger ∧
      ReadsBack pgStore
        (season.foldl (Watch.handle pgStore) ⟨.new (fun _ => true) fun _ => true,fun _ => none⟩).store
        (season.foldl (Watch.handle pgStore) ⟨.new (fun _ => true) fun _ => true,fun _ => none⟩).ledger := by
  have hall := reads_back_iff (fun _ => true) (fun _ => true) season
    (uniqueTokens_along "sub-demo-001" (by decide))
  refine ⟨hall.1.mpr ?_ season [] rfl,hall.2.mpr ?_ season [] rfl⟩
  · let keeps (w : Watch MemStore) (op : Op) : Prop := MemKeeps w.ledger op
    have hsave : keeps ⟨.new,fun _ => none⟩ (.save demo) := ⟨by decide,by rintro _ ⟨⟩⟩
    refine (@steps_along_cons _ _ _ _ _ _ keeps).mpr ⟨hsave,?_⟩
    refine (@steps_along_cons _ _ _ _ _ _ keeps).mpr ⟨?_,@steps_along_nil _ _ _ _ keeps⟩
    rintro _ ⟨⟩ _
    decide
  · let keeps (w : Watch PgStore) (op : Op) : Prop := PgKeeps w.store op
    refine (@steps_along_cons _ _ _ _ _ _ keeps).mpr ⟨fun _ _ _ => PgStore.stored_eq_iff.mp (by decide),?_⟩
    exact (@steps_along_cons _ _ _ _ _ _ keeps).mpr ⟨trivial,@steps_along_nil _ _ _ _ keeps⟩

def rotation : List Op := [.save demo,.save { demo with subToken := "token-2" }]

def revocation : List Op := [.save demo,.save { demo with revoked := true }]

def planChange : List Op := [.save demo,.save { demo with planId := "free" }]

theorem reads_back_fails :
    (¬ ∀ ops : List Op,
      (∀ before after, ops=before++after →
        UniqueTokens (before.foldl (Watch.handle memStore) ⟨.new,fun _ => none⟩).ledger) →
      ReadsBack memStore (ops.foldl (Watch.handle memStore) ⟨.new,fun _ => none⟩).store
        (ops.foldl (Watch.handle memStore) ⟨.new,fun _ => none⟩).ledger) ∧
    (¬ ∀ ops : List Op, ∀ sub,
      (∀ before after, ops=before++after →
        UniqueTokens (before.foldl (Watch.handle memStore) ⟨.new,fun _ => none⟩).ledger) →
      memStore.byToken (ops.foldl (Watch.handle memStore) ⟨.new,fun _ => none⟩).store sub.subToken = .ok sub →
        sub.revoked=false) ∧
    ¬ ∀ ops : List Op,
      ReadsBack pgStore
        (ops.foldl (Watch.handle pgStore) ⟨.new (fun _ => true) fun _ => true,fun _ => none⟩).store
        (ops.foldl (Watch.handle pgStore) ⟨.new (fun _ => true) fun _ => true,fun _ => none⟩).ledger := by
  refine ⟨fun h => ?_,fun h => ?_,fun h => ?_⟩
  · have hold : LiveAt _ "demo-token-aether-x-2026" demo :=
      h rotation (uniqueTokens_along "sub-demo-001" (by decide)) "demo-token-aether-x-2026"
    exact absurd hold.1 (by decide)
  · exact absurd (h revocation { demo with revoked := true } (uniqueTokens_along "sub-demo-001" (by decide)) rfl)
      (by decide)
  · have hrow : LiveAt _ "demo-token-aether-x-2026" demo := h planChange "demo-token-aether-x-2026"
    exact absurd hrow.1 (by decide)

end AetherX.SubscriptionStore
