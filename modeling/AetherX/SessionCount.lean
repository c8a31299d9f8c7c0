import AetherX.SessionCache

/-! The number of a user's active sessions, as the device limit reads it off the user's set in
Redis. No request fails; time passes between the calls. -/
namespace AetherX.SessionCount
open Supervisor (Instant Duration fromSecs)
open SessionStore SessionManager SessionCache Machine Function

theorem cacheTtl_pos : 0 < cacheTtl := Nat.mul_pos (by decide) (by decide)

section
variable {sets : UserSets} {now t : Instant} {userId user id : String}

theorem live_put (entry : Option (Finset String × Option Instant)) :
    (sets.put user entry).live now userId=if userId=user then
      entry.filter (fun e => e.2.all fun expiry => decide (now < expiry)) else sets.live now userId := by
  rw [UserSets.live,UserSets.put,update_apply]
  split_ifs <;> rfl

theorem members_of_live {ids : Finset String} {expiry : Option Instant}
    (h : sets.live now user=some (ids, expiry)) : sets.members now user=ids := by
  rw [UserSets.members,h]

theorem members_of_no_live (h : sets.live now user=none) : sets.members now user = ∅ := by
  rw [UserSets.members,h]

/-- SADD gives a set of the members it had and the new one, EXPIRE gives it its time anew. -/
theorem live_enroll : ((sets.sAdd now user id).expire now user).live now userId =
    if userId=user then some (insert id (sets.members now user), some (now+cacheTtl))
    else sets.live now userId := by
  have httl : now < now+cacheTtl := Nat.lt_add_of_pos_right cacheTtl_pos
  have hlive : ∃ expiry, (sets.sAdd now user id).live now user =
      some (insert id (sets.members now user), expiry) := by
    rw [UserSets.sAdd]
    cases h : sets.live now user with
    | none => exact ⟨none,by rw [live_put,if_pos rfl,members_of_no_live h]; rfl⟩
    | some entry =>
      obtain ⟨ids,expiry⟩ := entry
      refine ⟨expiry,?_⟩
      rw [members_of_live h,live_put,if_pos rfl]
      rw [UserSets.live,Option.filter_eq_some_iff] at h
      exact Option.filter_eq_some_iff.mpr ⟨rfl,h.2⟩
  obtain ⟨expiry,hlive⟩ := hlive
  rw [UserSets.expire,hlive,live_put]
  split_ifs with huser
  · refine Option.filter_eq_some_iff.mpr ⟨rfl,?_⟩
    rw [Option.all_some,decide_eq_true_iff]
    exact httl
  · rw [UserSets.sAdd]
    split <;> rw [live_put,if_neg huser]

/-- SREM takes the member away and leaves the time of the set. -/
theorem live_sRem_of_ne (huser : userId≠user) :
    (sets.sRem now user id).live now userId=sets.live now userId := by
  rw [UserSets.sRem]
  split
  · rw [live_put,if_neg huser]
  · rfl

theorem live_sRem : (sets.sRem now user id).live now user=none ∧ (sets.members now user).erase id = ∅ ∨
    ∃ expiry, sets.live now user=some (sets.members now user, expiry) ∧
      (sets.sRem now user id).live now user=some ((sets.members now user).erase id, expiry) := by
  rw [UserSets.sRem]
  cases h : sets.live now user with
  | none => exact .inl ⟨h,by rw [members_of_no_live h,Finset.erase_empty]⟩
  | some entry =>
    obtain ⟨ids,expiry⟩ := entry
    rw [members_of_live h]
    dsimp only
    rw [live_put,if_pos rfl]
    split_ifs with hempty
    · exact .inl ⟨rfl,hempty⟩
    · refine .inr ⟨expiry,rfl,?_⟩
      rw [UserSets.live,Option.filter_eq_some_iff] at h
      exact Option.filter_eq_some_iff.mpr ⟨rfl,h.2⟩

theorem members_sRem : (sets.sRem now user id).members now user=(sets.members now user).erase id := by
  rcases @live_sRem sets now user id with h | ⟨expiry,-,h⟩
  · rw [members_of_no_live h.1,h.2]
  · rw [members_of_live h]

/-- With time sets lapse, and nothing else happens to them. -/
theorem members_later (h : now ≤ t) : sets.members t user=sets.members now user ∨
    sets.members t user = ∅ := by
  cases ht : sets.live t user with
  | none => exact .inr (members_of_no_live ht)
  | some entry =>
    obtain ⟨ids,expiry⟩ := entry
    rw [UserSets.live,Option.filter_eq_some_iff] at ht
    have hnow : sets.live now user=some (ids, expiry) := by
      rw [UserSets.live,Option.filter_eq_some_iff]
      refine ⟨ht.1,?_⟩
      cases expiry with
      | none => rfl
      | some e => simpa using Nat.lt_of_le_of_lt h (by simpa using ht.2)
    refine .inl ?_
    rw [members_of_live hnow]
    exact members_of_live (Option.filter_eq_some_iff.mpr ht)

theorem live_later {ids : Finset String} {expiry : Instant}
    (h : sets.live now user=some (ids, some expiry)) :
    sets.live t user=if t < expiry then some (ids, some expiry) else none := by
  rw [UserSets.live,Option.filter_eq_some_iff] at h
  rw [UserSets.live,h.1]
  simp [Option.filter]
end

def users (m : Manager) : UserSets :=
  match m.redis with
  | some r => r.userSessions
  | none => fun _ => none

section
variable {m : Manager} {now : Instant} {id : String}

theorem users_tell (m : Manager) (ok : Bool) (request : Redis → Redis) (change : UserSets → UserSets)
    (h : ∀ r, (request r).userSessions=change r.userSessions) (hr : m.redis.isSome=true) :
    users (m.tell ok request)=if ok then change (users m) else users m := by
  obtain ⟨r,hr⟩ := Option.isSome_iff_exists.mp hr
  rw [users,Manager.tell_redis,users,hr]
  split_ifs
  · exact h r
  · rfl

theorem users_set (m : Manager) (ok : Bool) (now : Instant) (id : String) (s : Session) :
    users (m.tell ok fun r => r.set now id s)=users m := by
  rw [users,Manager.tell_redis,users]
  cases m.redis <;> cases ok <;> rfl

theorem users_getSession (m : Manager) (ans : Answers) (now : Instant) (id : String) :
    users (m.getSession ans now id).1=users m := by
  rw [Manager.getSession]
  split
  · rfl
  · split
    · rfl
    · exact users_set ..

theorem users_heartbeat (m : Manager) (ans : Answers) (now : Instant) (id : String) (up down : Int) :
    users (m.heartbeat ans now id up down).1=users m := by
  have hget := users_getSession m ans now id
  rw [Manager.heartbeat]
  generalize m.getSession ans now id=answer at hget ⊢
  obtain ⟨m',read⟩ := answer
  split_ifs
  · rfl
  cases read with
  | error e => exact hget
  | ok s =>
    dsimp only
    split
    · exact hget
    · split
      · exact hget
      · rw [users_set]
        exact hget

theorem users_migrateSession (m : Manager) (ans : Answers) (now : Instant) (id node ip : String) :
    users (m.migrateSession ans now id node ip).1=users m := by
  have hget := users_getSession m ans now id
  rw [Manager.migrateSession]
  generalize m.getSession ans now id=answer at hget ⊢
  obtain ⟨m',read⟩ := answer
  split_ifs
  · rfl
  cases read with
  | error e => exact hget
  | ok s =>
    dsimp only
    split
    · exact hget
    · exact hget
    · split
      · exact hget
      · split
        · exact hget
        · rw [users_set]
          exact hget

def enroll (sets : UserSets) (now : Instant) (userId id : String) : UserSets :=
  (sets.sAdd now userId id).expire now userId

theorem users_createSession (hr : m.redis.isSome=true) {s : Session}
    (hvalid : ¬ (trimSpace s.id = "" ∨ trimSpace s.userId = "")) :
    users (m.createSession .healthy now s).1=enroll (users m) now s.userId s.id := by
  have hid : (begin s now).id ≠ "" := ne_empty_of_trim fun h => hvalid (.inl h)
  rw [Manager.createSession,if_neg hvalid,Store.saveSession_of_ne hid]
  dsimp only
  rw [users_tell _ _ _ (fun sets => sets.expire now s.userId) (fun _ => rfl) (by simpa using hr),
    users_tell _ _ _ (fun sets => sets.sAdd now s.userId s.id) (fun _ => rfl) (by simpa using hr),
    users_set]
  rfl

theorem users_closeSession_missing (h : ∀ s, readOf m .healthy now id ≠ .ok s) :
    users (m.closeSession .healthy now id).1=users m := by
  have hget := users_getSession m .healthy now id
  rw [readOf] at h
  rw [Manager.closeSession]
  generalize m.getSession .healthy now id=answer at hget h ⊢
  obtain ⟨m',read⟩ := answer
  cases read with
  | error e => exact hget
  | ok s => exact absurd rfl (h s)

theorem users_closeSession (hm : Keyed m) (hr : m.redis.isSome=true) {s : Session}
    (hread : readOf m .healthy now id = .ok s) (huser : s.userId ≠ "") :
    users (m.closeSession .healthy now id).1=(users m).sRem now s.userId id := by
  obtain ⟨m',read,hget,hpg,hcache,hkey⟩ := hm.getSession .healthy now id
  have husers : users m'=users m := by
    rw [← users_getSession m .healthy now id,hget]
  have hsome : m'.redis.isSome=true := by rw [hcache.present,hr]
  rw [readOf,hget] at hread
  obtain rfl : read = .ok s := hread
  obtain ⟨hid,hne⟩ := hkey s rfl
  have hsame : (close s).id=id := hid
  obtain ⟨pg,hsave,-,hrow,-⟩ := contents_saveSession m'.pg (show (close s).id ≠ "" by rwa [hsame])
  rw [hsame] at hrow
  rw [Manager.closeSession,hget]
  simp only [hsave,Manager.tell_pg,Manager.withStore_pg,Store.deleteSession_of_row hrow]
  show users (((m'.withStore pg).tell true fun r => r.del id).tell (true && s.userId != "")
    fun r => r.sRem now s.userId id)=_
  rw [users_tell _ _ _ (fun sets => sets.sRem now s.userId id) (fun _ => rfl) (by simpa using hsome),
    users_tell _ _ (fun r => r.del id) (fun sets => sets) (fun _ => rfl) (by simpa using hsome)]
  simp only [Bool.true_and,bne_iff_ne,ne_eq,huser,not_false_eq_true,if_true]
  rw [← husers]
  rfl
end

/- Whose session an identifier is, and whether it is active. -/
def standing (rows : Contents) (id : String) : Option (String × Bool) :=
  (rows id).map fun s => (s.userId, s.active)

section
variable {backend : Backend} {rows : Contents}

theorem standing_update (id : String) (s : Option Session) :
    standing (update rows id s) =
      update (standing rows) id (s.map fun s => (s.userId, s.active)) := by
  funext k
  rw [standing,update_apply,update_apply]
  split_ifs <;> rfl

/-- A session that is stored over one of the same standing changes nothing. -/
theorem standing_storing {id : String} {s t : Session} (hrow : rows id=some s)
    (h : (t.userId, t.active)=(s.userId, s.active)) :
    standing (storing rows id t).1=standing rows := by
  rw [storing,standing_update,Option.map_some,h]
  refine update_eq_iff.mpr ⟨?_,fun _ _ => rfl⟩
  rw [standing,hrow,Option.map_some]

theorem beat_standing {s t : Session} {now : Instant} {up down : Int} (h : beat s now up down = .ok t) :
    (t.userId, t.active)=(s.userId, s.active) := by
  rw [beat] at h
  split_ifs at h
  obtain rfl := Except.ok.inj h
  rfl

theorem move_standing {s t : Session} {now : Instant} {node ip : String}
    (h : move s now node ip = .ok (some t)) : (t.userId, t.active)=(s.userId, s.active) := by
  rw [move] at h
  split_ifs at h <;> cases h <;> rfl

/-- Heartbeats and migrations leave every session its standing. -/
theorem standing_heartbeat (id : String) (up down : Int) :
    standing (outcome backend rows (found backend rows id) (.heartbeat id up down)).1 =
      standing rows := by
  rw [outcome]
  split_ifs
  · rfl
  rw [found]
  cases hrow : rows id with
  | none => rfl
  | some s =>
    rw [orRefuse_ok]
    cases hbeat : beat s 0 up down with
    | error e => rfl
    | ok t => exact standing_storing hrow (beat_standing hbeat)

theorem standing_migrate (id node ip : String) :
    standing (outcome backend rows (found backend rows id) (.migrate id node ip)).1 =
      standing rows := by
  rw [outcome]
  split_ifs
  · rfl
  rw [found]
  cases hrow : rows id with
  | none => rfl
  | some s =>
    rw [orRefuse_ok]
    cases hmove : move s 0 (trimSpace node) ip with
    | error e => rfl
    | ok moved =>
      cases moved with
      | none => rfl
      | some t =>
        rw [orRefuse_ok,landing,if_neg (by rw [hrow]; exact Option.some_ne_none s)]
        exact standing_storing hrow (move_standing hmove)
end

def activeSessions (pg : Store) (userId : String) : List Session :=
  pg.sessions.filter fun s => s.active && s.userId == userId

/-- The active sessions of a user, counted by their identifiers. -/
theorem length_activeSessions {pg : Store} {userId : String} {ids : Finset String}
    (h : ∀ id, id∈ids ↔ standing (contents pg) id=some (userId, true)) :
    (activeSessions pg userId).length=ids.card := by
  have hnodup : ((activeSessions pg userId).map Session.id).Nodup :=
    pg.nodup_ids.sublist (List.filter_sublist.map _)
  have hids : ((activeSessions pg userId).map Session.id).toFinset=ids := by
    ext id
    rw [List.mem_toFinset,List.mem_map,h]
    constructor
    · rintro ⟨s,hs,rfl⟩
      obtain ⟨hmem,hactive⟩ := List.mem_filter.mp hs
      rw [Bool.and_eq_true,beq_iff_eq] at hactive
      rw [standing,contents,Store.mem_sessions_iff.mp hmem,← hactive.2,← hactive.1]
      rfl
    · intro hid
      rw [standing,contents,Option.map_map] at hid
      obtain ⟨s,hs,heq⟩ := Option.map_eq_some_iff.mp hid
      obtain ⟨huser,hactive⟩ := Prod.mk.inj heq
      refine ⟨s,List.mem_filter.mpr ⟨?_,?_⟩,Store.id_of_row hs⟩
      · rw [Store.mem_sessions_iff,Store.id_of_row hs,hs]
      · rw [Bool.and_eq_true,beq_iff_eq]
        exact ⟨hactive,huser⟩
  rw [← hids,List.toFinset_card_of_nodup hnodup,List.length_map]

/- The sets hold exactly the active sessions, and lapse a day after their user's last creation. -/
structure Registered (owners : String → Option (String × Bool)) (sets : UserSets) (now : Instant)
    (lastCreated : String → Instant) : Prop where
  rows : ∀ id userId active, owners id=some (userId, active) → active=true ∧ userId ≠ ""
  members : ∀ userId id, id∈sets.members now userId ↔ owners id=some (userId, true)
  expiry : ∀ userId, sets.members now userId ≠ ∅ →
    ∃ ids, sets.live now userId=some (ids, some (lastCreated userId+cacheTtl))

section
variable {owners : String → Option (String × Bool)} {sets : UserSets} {now : Instant}
  {lastCreated : String → Instant} {userId id : String}

theorem members_enroll (user : String) : (enroll sets now userId id).members now user =
    if user=userId then insert id (sets.members now userId) else sets.members now user := by
  rw [UserSets.members,enroll,live_enroll]
  split_ifs <;> rfl

theorem Registered.enroll (h : Registered owners sets now lastCreated) (huser : userId ≠ "")
    (hown : ∀ user active, owners id=some (user, active) → user=userId) :
    Registered (update owners id (some (userId, true))) (enroll sets now userId id) now
      (update lastCreated userId now) where
  rows k user active hk := by
    rw [update_apply] at hk
    split_ifs at hk
    · obtain ⟨rfl,rfl⟩ := Prod.mk.inj (Option.some.inj hk)
      exact ⟨rfl,huser⟩
    · exact h.rows k user active hk
  members user k := by
    rw [members_enroll,update_apply]
    by_cases hk : k=id
    · subst hk
      rw [if_pos rfl]
      by_cases hu : user=userId
      · rw [if_pos hu,hu]
        exact iff_of_true (Finset.mem_insert_self _ _) rfl
      · rw [if_neg hu,h.members]
        refine iff_of_false (fun hold => hu (hown user true hold)) (fun hnew => ?_)
        exact hu (Prod.mk.inj (Option.some.inj hnew)).1.symm
    · rw [if_neg hk,← h.members]
      split_ifs with hu
      · rw [hu,Finset.mem_insert,or_iff_right hk]
      · rfl
  expiry user hne := by
    rw [SessionCount.enroll,live_enroll,update_apply]
    rw [members_enroll] at hne
    split_ifs at hne ⊢ with hu
    · exact ⟨_,rfl⟩
    · exact h.expiry user hne

theorem Registered.strike (h : Registered owners sets now lastCreated) {active : Bool}
    (hid : owners id=some (userId, active)) :
    Registered (update owners id none) (sets.sRem now userId id) now lastCreated where
  rows k user active hk := by
    rw [update_apply] at hk
    split_ifs at hk
    exact h.rows k user active hk
  members user k := by
    rw [update_apply]
    by_cases hu : user=userId
    · rw [hu,members_sRem,Finset.mem_erase,h.members]
      split_ifs with hk
      · exact iff_of_false (fun hmem => hmem.1 hk) nofun
      · exact and_iff_right hk
    · rw [UserSets.members,live_sRem_of_ne hu,← UserSets.members,h.members]
      split_ifs with hk
      · refine iff_of_false (fun hold => hu ?_) nofun
        rw [hk,hid] at hold
        exact (Prod.mk.inj (Option.some.inj hold)).1.symm
      · rfl
  expiry user hne := by
    by_cases hu : user=userId
    · subst hu
      rw [members_sRem] at hne
      have hsome : sets.members now user ≠ ∅ := by
        intro hempty
        exact hne (by rw [hempty,Finset.erase_empty])
      obtain ⟨ids,hlive⟩ := h.expiry user hsome
      rcases @live_sRem sets now user id with hnone | ⟨expiry,hold,hnew⟩
      · exact absurd hnone.2 hne
      · rw [hlive] at hold
        obtain ⟨-,rfl⟩ := Prod.mk.inj (Option.some.inj hold)
        exact ⟨_,hnew⟩
    · rw [UserSets.members,live_sRem_of_ne hu] at hne
      rw [live_sRem_of_ne hu]
      exact h.expiry user hne

theorem Registered.wait (h : Registered owners sets now lastCreated) {d : Duration}
    (hd : ∀ user, sets.members now user ≠ ∅ → now+d < lastCreated user+cacheTtl) :
    Registered owners sets (now+d) lastCreated := by
  have hsame : ∀ user, sets.members (now+d) user=sets.members now user := by
    intro user
    by_cases hempty : sets.members now user = ∅
    · rcases @members_later sets now (now+d) user (Nat.le_add_right _ _) with hlater | hlater
      · exact hlater
      · rw [hlater,hempty]
    · obtain ⟨ids,hlive⟩ := h.expiry user hempty
      have hlater := live_later (t := now+d) hlive
      rw [if_pos (hd user hempty)] at hlater
      rw [members_of_live hlive,members_of_live hlater]
  refine ⟨h.rows,fun user id => by rw [hsame,h.members],fun user hne => ?_⟩
  rw [hsame] at hne
  obtain ⟨ids,hlive⟩ := h.expiry user hne
  refine ⟨ids,?_⟩
  rw [live_later hlive,if_pos (hd user hne)]
end

/- The manager in time, and when each user's last session was created. -/
structure Server where
  manager : Manager
  now : Instant
  lastCreated : String → Instant

inductive Event where
  | call (call : Call)
  | wait (d : Duration)

namespace Server
def start (backend : Backend) (now : Instant) : Server :=
  ⟨⟨some .empty,.empty backend⟩,now,fun _ => now⟩

def handle (w : Server) : Event → Server
  | .call (.create s) =>
    match w.manager.createSession .healthy w.now s with
    | (m, .ok ()) => ⟨m,w.now,update w.lastCreated s.userId w.now⟩
    | (m, .error _) => { w with manager := m }
  | .call call => { w with manager := (w.manager.apply .healthy w.now call).1 }
  | .wait d => { w with now := w.now+d }

def run (w : Server) (events : List Event) : Server := events.foldl handle w

/-- The device limit is told the number of active sessions that the store has. -/
def Counts (w : Server) : Prop := ∀ userId,
  w.manager.countActive .healthy w.now userId=(activeSessions w.manager.pg userId).length

/-- No creation takes over the identifier of another user's session, and no user with active
sessions goes a day without a creation. -/
def Kept (w : Server) : Event → Prop
  | .call (.create s) => (trimSpace s.id = "" ∨ trimSpace s.userId = "") ∨
    ∀ t, w.manager.pg.row s.id=some t → t.userId=s.userId
  | .call _ => True
  | .wait d => ∀ userId, activeSessions w.manager.pg userId≠[] →
    w.now+d < w.lastCreated userId+cacheTtl

structure Inv (w : Server) : Prop where
  redis : w.manager.redis.isSome=true
  keyed : Keyed w.manager
  coherent : Coherent w.manager
  registered : Registered (standing (contents w.manager.pg)) (users w.manager) w.now w.lastCreated

variable {w : Server}

theorem Inv.start (backend : Backend) (now : Instant) : Inv (start backend now) :=
  ⟨rfl,nofun,nofun,nofun,fun _ _ => iff_of_false nofun nofun,fun _ h => absurd rfl h⟩

theorem countActive_eq {m : Manager} (h : m.redis.isSome=true) (now : Instant) (userId : String) :
    m.countActive .healthy now userId=((users m).members now userId).card := by
  obtain ⟨r,hr⟩ := Option.isSome_iff_exists.mp h
  rw [Manager.countActive,users,hr]
  rfl

theorem Inv.length_active (hw : Inv w) (userId : String) : (activeSessions w.manager.pg userId).length =
    ((users w.manager).members w.now userId).card :=
  length_activeSessions fun id => hw.registered.members userId id

theorem Inv.active_ne_nil_iff (hw : Inv w) (userId : String) :
    activeSessions w.manager.pg userId≠[] ↔ (users w.manager).members w.now userId ≠ ∅ := by
  rw [← List.length_pos_iff,hw.length_active,Finset.card_pos,Finset.nonempty_iff_ne_empty]

theorem Inv.counts (hw : Inv w) : Counts w := by
  intro userId
  rw [countActive_eq hw.redis,hw.length_active]

theorem counts_wait_iff (hw : Inv w) (d : Duration) :
    Counts (w.handle (.wait d)) ↔ w.Kept (.wait d) := by
  constructor
  · intro h userId hactive
    have hne := (hw.active_ne_nil_iff userId).mp hactive
    obtain ⟨ids,hlive⟩ := hw.registered.expiry userId hne
    by_contra hlapsed
    have hlater := live_later (t := w.now+d) hlive
    rw [if_neg hlapsed] at hlater
    have hcount : ((users w.manager).members (w.now+d) userId).card =
        (activeSessions w.manager.pg userId).length :=
      (countActive_eq hw.redis (w.now+d) userId).symm.trans (h userId)
    have hzero : (activeSessions w.manager.pg userId).length=0 := by
      rw [← hcount,members_of_no_live hlater,Finset.card_empty]
    exact hactive (List.length_eq_zero_iff.mp hzero)
  · intro h
    have hreg := hw.registered.wait fun user hne => h user ((hw.active_ne_nil_iff user).mpr hne)
    exact Inv.counts ⟨hw.redis,hw.keyed,hw.coherent,hreg⟩

theorem Inv.wait (hw : Inv w) (d : Duration) (h : w.Kept (.wait d)) : Inv (w.handle (.wait d)) :=
  ⟨hw.redis,hw.keyed,hw.coherent,
    hw.registered.wait fun user hne => h user ((hw.active_ne_nil_iff user).mpr hne)⟩

section
variable {s : Session}

theorem createSession_refused (hblank : trimSpace s.id = "" ∨ trimSpace s.userId = "") :
    w.handle (.call (.create s))=w := by
  rw [handle,Manager.createSession,if_pos hblank]

theorem createSession_accepted
    (hvalid : ¬ (trimSpace s.id = "" ∨ trimSpace s.userId = "")) :
    w.handle (.call (.create s))=⟨(w.manager.apply .healthy w.now (.create s)).1,w.now,
      update w.lastCreated s.userId w.now⟩ := by
  have hid : (begin s w.now).id ≠ "" := ne_empty_of_trim fun h => hvalid (.inl h)
  rw [handle,Manager.apply,Manager.createSession,if_neg hvalid,Store.saveSession_of_ne hid]

theorem create_effect (hw : Inv w) (hvalid : ¬ (trimSpace s.id = "" ∨ trimSpace s.userId = "")) :
    (w.manager.apply .healthy w.now (.create s)).1.redis.isSome=true ∧
      users (w.manager.apply .healthy w.now (.create s)).1 =
        enroll (users w.manager) w.now s.userId s.id ∧
      standing (contents (w.manager.apply .healthy w.now (.create s)).1.pg) =
        update (standing (contents w.manager.pg)) s.id (some (s.userId, true)) := by
  have heffect := effect_apply hw.keyed .healthy w.now (.create s)
  refine ⟨by rw [heffect.recached.present,hw.redis],?_,?_⟩
  · rw [apply_create,users_createSession hw.redis hvalid]
  rw [contents_apply hw.keyed,outcome,if_neg hvalid,storing,standing_update]
  rfl

theorem Inv.create (hw : Inv w) (hvalid : ¬ (trimSpace s.id = "" ∨ trimSpace s.userId = ""))
    (hown : ∀ t, w.manager.pg.row s.id=some t → t.userId=s.userId) :
    Inv (w.handle (.call (.create s))) := by
  obtain ⟨hredis,husers,hstanding⟩ := create_effect hw hvalid
  rw [createSession_accepted hvalid]
  have hkeyed : Keyed (w.manager.apply .healthy w.now (.create s)).1 := hw.keyed.apply (.create s)
  have hcoherent : Coherent (w.manager.apply .healthy w.now (.create s)).1 :=
    hw.coherent.apply hw.keyed rfl rfl (.create s)
  generalize (w.manager.apply .healthy w.now (.create s)).1=m at *
  refine ⟨hredis,hkeyed,hcoherent,?_⟩
  rw [husers,hstanding]
  refine hw.registered.enroll (ne_empty_of_trim fun h => hvalid (.inr h)) fun user active h => ?_
  rw [standing,contents,Option.map_map] at h
  obtain ⟨t,ht,heq⟩ := Option.map_eq_some_iff.mp h
  rw [← hown t ht]
  exact (Prod.mk.inj heq).1.symm

/-- A session that changes hands stays in the set of the user who had it. -/
theorem counts_create_iff (hw : Inv w) (hvalid : ¬ (trimSpace s.id = "" ∨ trimSpace s.userId = "")) :
    Counts (w.handle (.call (.create s))) ↔
      ∀ t, w.manager.pg.row s.id=some t → t.userId=s.userId := by
  refine ⟨fun h t ht => ?_,fun h => (hw.create hvalid h).counts⟩
  obtain ⟨hredis,husers,hstanding⟩ := create_effect hw hvalid
  rw [createSession_accepted hvalid] at h
  generalize (w.manager.apply .healthy w.now (.create s)).1=m at *
  by_contra huser
  have hold : standing (contents w.manager.pg) s.id=some (t.userId, t.active) := by
    rw [standing,contents,ht]
    rfl
  rw [(hw.registered.rows _ _ _ hold).1] at hold
  have hmem : s.id∈(users w.manager).members w.now t.userId := (hw.registered.members _ _).mpr hold
  have hrows : (activeSessions m.pg t.userId).length =
      (((users w.manager).members w.now t.userId).erase s.id).card := by
    refine length_activeSessions fun id => ?_
    rw [hstanding,Finset.mem_erase,update_apply,hw.registered.members]
    split_ifs with hid
    · refine iff_of_false (fun hne => hne.1 hid) fun heq => huser ?_
      exact (Prod.mk.inj (Option.some.inj heq)).1.symm
    · exact and_iff_right hid
  have hcount := (countActive_eq hredis w.now t.userId).symm.trans (h t.userId)
  rw [husers,members_enroll,if_neg huser,hrows,Finset.card_erase_of_mem hmem] at hcount
  have hpos := Finset.card_pos.mpr ⟨_,hmem⟩
  omega
end

theorem read_of_coherent {m : Manager} (hc : Coherent m) (ans : Answers) (now : Instant) (id : String) :
    (readOf m ans now id).map untimed=found m.pg.backend (contents m.pg) id := by
  rw [readOf_untimed]
  cases hcopy : m.cached ans now id with
  | none => rfl
  | some copy =>
    obtain ⟨expiry,hentry⟩ := entry_of_cached hcopy
    rw [found,hc id copy expiry hentry]

theorem Inv.keep (hw : Inv w) {call : Call}
    (husers : users (w.manager.apply .healthy w.now call).1=users w.manager)
    (hstanding : standing (outcome w.manager.pg.backend (contents w.manager.pg)
      (found w.manager.pg.backend (contents w.manager.pg) (target call)) call).1 =
        standing (contents w.manager.pg)) :
    Inv { w with manager := (w.manager.apply .healthy w.now call).1 } := by
  have heffect := effect_apply hw.keyed .healthy w.now call
  refine ⟨by rw [heffect.recached.present,hw.redis],hw.keyed.apply call,
    hw.coherent.apply hw.keyed rfl rfl call,?_⟩
  rw [husers,contents_apply hw.keyed,read_of_coherent hw.coherent,hstanding]
  exact hw.registered

theorem Inv.close (hw : Inv w) (id : String) : Inv (w.handle (.call (.close id))) := by
  have hread := read_of_coherent hw.coherent .healthy w.now id
  show Inv { w with manager := (w.manager.apply .healthy w.now (.close id)).1 }
  cases hrow : contents w.manager.pg id with
  | none =>
    rw [found,hrow] at hread
    have hmissing : ∀ s, readOf w.manager .healthy w.now id ≠ .ok s := by
      intro s hs
      rw [hs] at hread
      cases hread
    exact hw.keep (by rw [apply_close,users_closeSession_missing hmissing])
      (by rw [target,found,hrow]; rfl)
  | some c =>
    rw [found,hrow] at hread
    cases hs : readOf w.manager .healthy w.now id with
    | error e => rw [hs] at hread; cases hread
    | ok s =>
      rw [hs] at hread
      obtain rfl : untimed s=c := Except.ok.inj hread
      have hown : standing (contents w.manager.pg) id=some (s.userId, s.active) := by
        rw [standing,hrow]
        rfl
      have heffect := effect_apply hw.keyed .healthy w.now (.close id)
      refine ⟨by rw [heffect.recached.present,hw.redis],hw.keyed.apply (.close id),
        hw.coherent.apply hw.keyed rfl rfl (.close id),?_⟩
      have husers : users (w.manager.apply .healthy w.now (.close id)).1 =
          (users w.manager).sRem w.now s.userId id := by
        rw [apply_close,users_closeSession hw.keyed hw.redis hs (hw.registered.rows _ _ _ hown).2]
      rw [husers,contents_apply hw.keyed,outcome,target,hs,Except.map,orRefuse_ok,
        standing_update]
      exact hw.registered.strike hown

theorem Inv.handle (hw : Inv w) {e : Event} (he : w.Kept e) : Inv (w.handle e) := by
  cases e with
  | wait d => exact hw.wait d he
  | call call =>
    cases call with
    | create s =>
      by_cases hblank : trimSpace s.id = "" ∨ trimSpace s.userId = ""
      · rw [createSession_refused hblank]
        exact hw
      · exact hw.create hblank (he.resolve_left hblank)
    | get id =>
      refine hw.keep (by rw [apply_get,users_getSession]) ?_
      rw [outcome]
      cases found w.manager.pg.backend (contents w.manager.pg) (target (.get id)) <;> rfl
    | heartbeat id up down =>
      exact hw.keep (by rw [apply_heartbeat,users_heartbeat]) (standing_heartbeat id up down)
    | migrate id node ip =>
      exact hw.keep (by rw [apply_migrate,users_migrateSession]) (standing_migrate id node ip)
    | close id => exact hw.close id

theorem counts_handle_iff (hw : Inv w) (e : Event) : Counts (w.handle e) ↔ w.Kept e := by
  cases e with
  | wait d => exact counts_wait_iff hw d
  | call call =>
    cases call with
    | create s =>
      by_cases hblank : trimSpace s.id = "" ∨ trimSpace s.userId = ""
      · rw [createSession_refused hblank]
        exact iff_of_true hw.counts (.inl hblank)
      · rw [counts_create_iff hw hblank,Kept,or_iff_right hblank]
    | _ =>
      refine iff_of_true (Inv.counts (hw.handle ?_)) trivial
      trivial

end Server

/-- The count is right exactly as long as identifiers stay with their users and no user with an
active session lets a day pass after the last creation. -/
theorem counts_iff_kept (backend : Backend) (now : Instant) (events : List Event) :
    (∀ before after, events=before++after → ((Server.start backend now).run before).Counts) ↔
      ∀ before e after, events=before++e::after →
        ((Server.start backend now).run before).Kept e := by
  have hstep : ∀ w e, Server.Inv w → ((w.handle e).Counts ↔ w.Kept e) :=
    fun w e hw => Server.counts_handle_iff hw e
  exact foldl_holds_iff Server.Inv (fun w hw => hw.counts) hstep (fun w e hw he => hw.handle he)
    events (Server.Inv.start backend now)

/- A session with a heartbeat every twelve hours, a little over a day after it was created. -/
def oneDay : List Event :=
  [.call (.create device),.wait (fromSecs 43200),.call (.heartbeat "s1" 1 1),
    .wait (fromSecs 43260),.call (.heartbeat "s1" 2 2)]

/-- The user's set has lapsed although the session is active. -/
theorem active_session_uncounted : ¬ ∀ (backend : Backend) (now : Instant) (events : List Event),
    ((Server.start backend now).run events).Counts := by
  intro h
  have hcount := h .memory 0 oneDay "u1"
  revert hcount
  decide +kernel

end AetherX.SessionCount
