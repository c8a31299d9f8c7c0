import AetherX.SessionManager

/-! A session manager with a cache next to one without, over the same sequential calls. Any
request to Redis may fail and any of its keys may lapse. -/
namespace AetherX.SessionCache
open Supervisor (Instant)
open SessionStore SessionManager Machine Function

def untimed (s : Session) : Session := { s with startedAt := 0, lastSeenAt := 0 }

def contents (pg : Store) (id : String) : Option Session := (pg.row id).map untimed

def untimedReply (reply : Reply) : Reply := reply.map (Option.map untimed)

abbrev Contents := String → Option Session

def found (backend : Backend) (rows : Contents) (id : String) : Except SessionError Session :=
  match rows id with
  | some s => .ok s
  | none => .error (.store (backend.noSession id))

def orRefuse {α : Type*} (rows : Contents) (result : Except SessionError α)
    (proceed : α → Contents × Reply) : Contents × Reply :=
  match result with
  | .error e => (rows, .error e)
  | .ok a => proceed a

@[simp] theorem orRefuse_ok {α : Type*} (rows : Contents) (a : α) (proceed : α → Contents × Reply) :
    orRefuse rows (.ok a) proceed=proceed a := rfl

@[simp] theorem orRefuse_error {α : Type*} (rows : Contents) (e : SessionError)
    (proceed : α → Contents × Reply) : orRefuse rows (.error e) proceed=(rows, .error e) := rfl

def storing (rows : Contents) (id : String) (s : Session) : Contents × Reply :=
  (update rows id (some s), .ok none)

/- A move is recorded in the row before it is stored. -/
def landing (backend : Backend) (rows : Contents) (id : String) : Option Session → Contents × Reply
  | none => (rows, .ok none)
  | some s => if rows id=none then (rows, .error (.store backend.noRow)) else storing rows id s

/- What a call does to the contents of the store and what it answers, timestamps aside, as a
   function of the session that it reads. -/
def outcome (backend : Backend) (rows : Contents) (read : Except SessionError Session) :
    Call → Contents × Reply
  | .create s =>
    if trimSpace s.id = "" ∨ trimSpace s.userId = "" then (rows, .error .idsRequired)
    else storing rows s.id (begin s 0)
  | .get _ => orRefuse rows read fun s => (rows, .ok (some s))
  | .heartbeat id up down =>
    if up<0 ∨ down<0 then (rows, .error .negativeCounters)
    else orRefuse rows read fun s => orRefuse rows (beat s 0 up down) (storing rows id)
  | .migrate id node ip =>
    if trimSpace node = "" then (rows, .error .targetRequired)
    else orRefuse rows read fun s =>
      orRefuse rows (move s 0 (trimSpace node) ip) (landing backend rows id)
  | .close id => orRefuse rows read fun _ => (update rows id none, .ok none)

section
variable {m : Manager} {ans : Answers} {now : Instant} {s : Session} {id : String}

/- Every copy in the cache is of the session whose key it is under. -/
def Keyed (m : Manager) : Prop :=
  ∀ id s expiry, m.entry id=some (s, expiry) → s.id=id ∧ id ≠ ""

/-- A copy that is served is an entry of the cache. -/
theorem entry_of_cached (h : m.cached ans now id=some s) : ∃ expiry, m.entry id=some (s, expiry) := by
  rw [Manager.cached] at h
  split_ifs at h
  obtain ⟨r,hr,hget⟩ := Option.bind_eq_some_iff.mp h
  rw [Redis.get] at hget
  split at hget
  · rename_i t expiry hentry
    split_ifs at hget
    obtain rfl := Option.some.inj hget
    exact ⟨expiry,by rw [Manager.entry,hr,Option.bind_some,hentry]⟩
  · cases hget

def readOf (m : Manager) (ans : Answers) (now : Instant) (id : String) : Except SessionError Session :=
  (m.getSession ans now id).2

/- What a call on one session does to the cache: a copy that is there afterwards is the row,
   unless it is as old as the row is or a request has failed. -/
structure Recached (ans : Answers) (id : String) (m m' : Manager) : Prop where
  present : m'.redis.isSome=m.redis.isSome
  frame : ∀ k, k≠id → m'.entry k=m.entry k
  entry : ∀ s expiry, m'.entry id=some (s, expiry) → s.id=id ∧ id ≠ "" ∧
    (contents m'.pg id=some (untimed s) ∨
      (m.entry id=some (s, expiry) ∧ contents m'.pg id=contents m.pg id) ∨
      ans.write=false ∨ ans.del=false)

theorem Recached.refl (hm : Keyed m) (ans : Answers) (id : String) : Recached ans id m m where
  present := rfl
  frame := fun _ _ => rfl
  entry := fun s expiry h => ⟨(hm id s expiry h).1,(hm id s expiry h).2,.inr (.inl ⟨h,rfl⟩)⟩

/-- Reading leaves the store alone and gives a session of the identifier asked for. -/
theorem Keyed.getSession (hm : Keyed m) (ans : Answers) (now : Instant) (id : String) :
    ∃ m' read, m.getSession ans now id=(m', read) ∧ m'.pg=m.pg ∧ Recached ans id m m' ∧
      ∀ s, read = .ok s → s.id=id ∧ id ≠ "" := by
  rw [Manager.getSession]
  cases hcached : m.cached ans now id with
  | some s =>
    obtain ⟨expiry,hentry⟩ := entry_of_cached hcached
    refine ⟨m,.ok s,rfl,rfl,.refl hm ans id,fun t ht => ?_⟩
    rw [← Except.ok.inj ht]
    exact hm id s expiry hentry
  | none =>
    cases hrow : m.pg.getSession id with
    | error e => exact ⟨m,.error (.store e),rfl,rfl,.refl hm ans id,nofun⟩
    | ok s =>
      have hkey := m.pg.keyed id s (Store.getSession_eq_ok_iff.mp hrow)
      refine ⟨_,.ok s,rfl,Manager.tell_pg ..,⟨Manager.isSome_tell ..,?_,?_⟩,?_⟩
      · intro k hk
        rw [Manager.entry_tell_set,if_neg fun h => hk h.2]
      · intro t expiry ht
        rw [Manager.entry_tell_set] at ht
        split_ifs at ht
        · obtain ⟨r,-,heq⟩ := Option.map_eq_some_iff.mp ht
          obtain ⟨rfl,-⟩ := Prod.mk.inj heq
          refine ⟨hkey.1,hkey.2,.inl ?_⟩
          rw [Manager.tell_pg,contents,Store.getSession_eq_ok_iff.mp hrow,Option.map_some]
        · obtain ⟨hid,hne⟩ := hm id t expiry ht
          exact ⟨hid,hne,.inr (.inl ⟨ht,by rw [Manager.tell_pg]⟩)⟩
      · intro t ht
        rw [← Except.ok.inj ht]
        exact hkey

variable {m' : Manager}

/-- A session that is written through to the cache is there as it is in the store. -/
theorem Recached.write {pg : Store} (h : Recached ans id m m') (hid : s.id=id) (hne : id ≠ "")
    (hpg : contents pg id=some (untimed s)) :
    Recached ans id m ((m'.withStore pg).tell ans.write fun r => r.set now id s) where
  present := (Manager.isSome_tell ..).trans h.present
  frame k hk := by
    rw [Manager.entry_tell_set,if_neg fun h => hk h.2]
    exact h.frame k hk
  entry t expiry ht := by
    rw [Manager.entry_tell_set] at ht
    split_ifs at ht with hwrite
    · obtain ⟨r,-,heq⟩ := Option.map_eq_some_iff.mp ht
      obtain ⟨rfl,-⟩ := Prod.mk.inj heq
      exact ⟨hid,hne,.inl (by rw [Manager.tell_pg,Manager.withStore_pg,hpg])⟩
    · obtain ⟨hidt,hnet,-⟩ := h.entry t expiry ht
      refine ⟨hidt,hnet,.inr (.inr (.inl ?_))⟩
      cases hfail : ans.write with
      | false => rfl
      | true => exact absurd ⟨hfail,rfl⟩ hwrite

theorem Recached.enroll {userId : String} {ok ok' : Bool} (h : Recached ans id m m') :
    Recached ans id m ((m'.tell ok fun r => r.sAdd now userId id).tell ok'
      fun r => r.expire now userId) where
  present := by simpa using h.present
  frame k hk := by
    rw [Manager.entry_tell_of_sessions (fun r => r.expire now userId) fun _ => rfl,
      Manager.entry_tell_of_sessions (fun r => r.sAdd now userId id) fun _ => rfl]
    exact h.frame k hk
  entry t expiry ht := by
    rw [Manager.entry_tell_of_sessions (fun r => r.expire now userId) fun _ => rfl,
      Manager.entry_tell_of_sessions (fun r => r.sAdd now userId id) fun _ => rfl] at ht
    rw [Manager.tell_pg,Manager.tell_pg]
    exact h.entry t expiry ht

/-- A session that is closed leaves no copy, unless its removal has failed. -/
theorem Recached.drop {pg pg' : Store} {userId : String} (ok : Bool) (h : Recached ans id m m') :
    Recached ans id m ((((m'.withStore pg).tell ans.del fun r => r.del id).tell ok
      fun r => r.sRem now userId id).withStore pg') where
  present := by simpa using h.present
  frame k hk := by
    rw [Manager.withStore_entry,
      Manager.entry_tell_of_sessions (fun r => r.sRem now userId id) fun _ => rfl,
      Manager.entry_tell_del,if_neg fun h => hk h.2]
    exact h.frame k hk
  entry t expiry ht := by
    rw [Manager.withStore_entry,
      Manager.entry_tell_of_sessions (fun r => r.sRem now userId id) fun _ => rfl,
      Manager.entry_tell_del] at ht
    split_ifs at ht with hdel
    obtain ⟨hidt,hnet,-⟩ := h.entry t expiry ht
    refine ⟨hidt,hnet,.inr (.inr (.inr ?_))⟩
    cases hfail : ans.del with
    | false => rfl
    | true => exact absurd ⟨hfail,rfl⟩ hdel

variable (now s) in
theorem beat_untimed (up down : Int) :
    beat (untimed s) 0 up down=(beat s now up down).map untimed := by
  have hup : (untimed s).bytesUp=s.bytesUp := rfl
  have hdown : (untimed s).bytesDown=s.bytesDown := rfl
  simp only [beat,hup,hdown]
  split_ifs <;> rfl

variable (now s) in
theorem move_untimed (node ip : String) :
    move (untimed s) 0 node ip=(move s now node ip).map (Option.map untimed) := by
  have hactive : (untimed s).active=s.active := rfl
  have hmigratable : migratable (untimed s)=migratable s := rfl
  have hnode : (untimed s).nodeId=s.nodeId := rfl
  simp only [move,hactive,hmigratable,hnode]
  split_ifs <;> rfl

theorem untimed_stored (pg : Store) (s : Session) : untimed (pg.stored s)=untimed s := by
  rw [Store.stored]
  split <;> rfl

theorem contents_saveSession (pg : Store) (h : s.id ≠ "") : ∃ pg', pg.saveSession s = .ok pg' ∧
    pg'.backend=pg.backend ∧ pg'.row s.id=some (pg.stored s) ∧
      contents pg'=update (contents pg) s.id (some (untimed s)) := by
  refine ⟨_,Store.saveSession_of_ne h,rfl,?_,funext fun k => ?_⟩
  · rw [Store.row_put,Store.stored_id,if_pos rfl]
  · rw [contents,Store.row_put,Store.stored_id,update_apply]
    split_ifs
    · rw [Option.map_some,untimed_stored]
    · rfl

theorem contents_edit (pg : Store) (f : Session → Session) (hf : ∀ s, (f s).id=s.id)
    (h : pg.row id=some s) : ∃ pg', pg.edit id f hf = .ok pg' ∧ pg'.backend=pg.backend ∧
      contents pg'=update (contents pg) id (some (untimed (f s))) := by
  obtain ⟨pg',heq,hbackend,hrow⟩ := Store.edit_of_row f hf h
  refine ⟨pg',heq,hbackend,funext fun k => ?_⟩
  rw [contents,hrow,update_apply]
  split_ifs <;> rfl

theorem contents_remove (pg : Store) (id : String) :
    contents (pg.remove id)=update (contents pg) id none := by
  funext k
  rw [contents,Store.row_remove,update_apply]
  split_ifs <;> rfl

/- What a call did, against what it should do with the session that it read. -/
structure Effect (m : Manager) (ans : Answers) (call : Call) (read : Except SessionError Session)
    (after : Manager × Reply) : Prop where
  backend : after.1.pg.backend=m.pg.backend
  outcome : (contents after.1.pg, untimedReply after.2) =
    outcome m.pg.backend (contents m.pg) (read.map untimed) call
  recached : Recached ans (target call) m after.1

theorem contents_eq_none_iff {pg : Store} : contents pg id=none ↔ pg.row id=none :=
  Option.map_eq_none_iff

theorem effect_create (hm : Keyed m) (s : Session) :
    Effect m ans (.create s) (readOf m ans now s.id) (m.apply ans now (.create s)) := by
  rw [Manager.apply,Manager.createSession]
  by_cases hblank : trimSpace s.id = "" ∨ trimSpace s.userId = ""
  · rw [if_pos hblank]
    refine ⟨rfl,?_,.refl hm ans _⟩
    rw [outcome,if_pos hblank]
    rfl
  · have hid : (begin s now).id ≠ "" := ne_empty_of_trim fun h => hblank (.inl h)
    obtain ⟨pg',hsave,hbackend,-,hcontents⟩ := contents_saveSession m.pg hid
    have hthere : contents pg' s.id=some (untimed (begin s now)) := by
      rw [hcontents]
      exact update_self _ _ _
    rw [if_neg hblank,hsave]
    refine ⟨by simpa using hbackend,?_,?_⟩
    · simp only [Manager.tell_pg,Manager.withStore_pg,hcontents]
      rw [outcome,if_neg hblank]
      rfl
    · exact ((Recached.refl hm ans s.id).write (show (begin s now).id=s.id from rfl) hid hthere).enroll

theorem effect_get (hm : Keyed m) (id : String) :
    Effect m ans (.get id) (readOf m ans now id) (m.apply ans now (.get id)) := by
  obtain ⟨m',read,hget,hpg,hcache,-⟩ := hm.getSession ans now id
  rw [Manager.apply,readOf,hget]
  refine ⟨by rw [hpg],?_,hcache⟩
  rw [outcome,← hpg]
  cases read <;> rfl

theorem effect_heartbeat (hm : Keyed m) (id : String) (up down : Int) :
    Effect m ans (.heartbeat id up down) (readOf m ans now id)
      (m.apply ans now (.heartbeat id up down)) := by
  obtain ⟨m',read,hget,hpg,hcache,hread⟩ := hm.getSession ans now id
  rw [Manager.apply,Manager.heartbeat,readOf,hget]
  by_cases hneg : up<0 ∨ down<0
  · rw [if_pos hneg]
    refine ⟨rfl,?_,.refl hm ans _⟩
    rw [outcome,if_pos hneg]
    rfl
  rw [if_neg hneg]
  cases read with
  | error e =>
    refine ⟨by rw [hpg],?_,hcache⟩
    rw [outcome,if_neg hneg,← hpg]
    rfl
  | ok s =>
    obtain ⟨hid,hne⟩ := hread s rfl
    cases hbeat : beat s now up down with
    | error e =>
      simp only [hbeat]
      refine ⟨by rw [hpg],?_,hcache⟩
      rw [outcome,if_neg hneg,← hpg]
      simp only [Except.map,orRefuse,beat_untimed now s,hbeat,untimedReply]
    | ok t =>
      obtain ⟨htid,htup,htdown⟩ := beat_fields hbeat
      have hsame : t.id=id := htid.trans hid
      obtain ⟨pg₁,hsave,hb₁,hrow,hcontents⟩ :=
        contents_saveSession m'.pg (show t.id ≠ "" by rwa [hsame])
      obtain ⟨pg₂,hbytes,hb₂,hcontents₂⟩ := contents_edit pg₁ (fun s => { s with
        bytesUp := up, bytesDown := down }) (fun _ => rfl) (hsame ▸ hrow)
      have hstored : untimed { m'.pg.stored t with bytesUp := up, bytesDown := down }=untimed t := by
        rw [← htup,← htdown,Store.stored]
        split <;> rfl
      have hafter : contents pg₂=update (contents m.pg) id (some (untimed t)) := by
        rw [hcontents₂,hcontents,hstored,hsame,update_idem,hpg]
      simp only [hbeat,hsave,Store.updateBytes,hbytes]
      refine ⟨by rw [Manager.tell_pg,Manager.withStore_pg,hb₂,hb₁,hpg],?_,
        hcache.write hsame hne (by rw [hafter,update_self])⟩
      rw [outcome,if_neg hneg,Manager.tell_pg,Manager.withStore_pg,hafter]
      simp only [Except.map,orRefuse,beat_untimed now s,hbeat,untimedReply,Option.map_none]
      rfl

theorem effect_migrate (hm : Keyed m) (id node ip : String) :
    Effect m ans (.migrate id node ip) (readOf m ans now id)
      (m.apply ans now (.migrate id node ip)) := by
  obtain ⟨m',read,hget,hpg,hcache,hread⟩ := hm.getSession ans now id
  rw [Manager.apply,Manager.migrateSession,readOf,hget]
  by_cases hblank : trimSpace node = ""
  · rw [if_pos hblank]
    refine ⟨rfl,?_,.refl hm ans _⟩
    rw [outcome,if_pos hblank]
    rfl
  rw [if_neg hblank]
  cases read with
  | error e =>
    refine ⟨by rw [hpg],?_,hcache⟩
    rw [outcome,if_neg hblank,← hpg]
    rfl
  | ok s =>
    obtain ⟨hid,hne⟩ := hread s rfl
    cases hmove : move s now (trimSpace node) ip with
    | error e =>
      simp only [hmove]
      refine ⟨by rw [hpg],?_,hcache⟩
      rw [outcome,if_neg hblank,← hpg]
      simp only [Except.map,orRefuse,move_untimed now s,hmove,untimedReply]
    | ok moved =>
      cases moved with
      | none =>
        simp only [hmove]
        refine ⟨by rw [hpg],?_,hcache⟩
        rw [outcome,if_neg hblank,← hpg]
        simp only [Except.map,orRefuse,move_untimed now s,hmove,untimedReply,Option.map_none,
          landing]
      | some t =>
        have hsame : t.id=id := (move_fields hmove).1.trans hid
        cases hrow : m'.pg.row id with
        | none =>
          -- The copy was of a session that the store has lost.
          simp only [hmove,Store.recordMigration,Store.edit_of_no_row hrow]
          refine ⟨by rw [hpg],?_,hcache⟩
          rw [outcome,if_neg hblank,← hpg]
          simp only [Except.map,orRefuse,move_untimed now s,hmove,untimedReply,Option.map_some,
            landing,if_pos (contents_eq_none_iff.mpr hrow)]
        | some old =>
          obtain ⟨pg₁,hrecord,hb₁,hcontents₁⟩ := contents_edit m'.pg (fun s => { s with
            nodeId := trimSpace node, migratedCount := s.migratedCount+1 }) (fun _ => rfl) hrow
          obtain ⟨pg₂,hsave,hb₂,-,hcontents₂⟩ :=
            contents_saveSession pg₁ (show t.id ≠ "" by rwa [hsame])
          have hthere : contents m.pg id≠none := by
            rw [← hpg,Ne,contents_eq_none_iff,hrow]
            exact Option.some_ne_none old
          have hafter : contents pg₂=update (contents m.pg) id (some (untimed t)) := by
            rw [hcontents₂,hcontents₁,hsame,update_idem,hpg]
          simp only [hmove,Store.recordMigration,hrecord,hsave]
          refine ⟨by rw [Manager.tell_pg,Manager.withStore_pg,hb₂,hb₁,hpg],?_,
            hcache.write hsame hne (by rw [hafter,update_self])⟩
          rw [outcome,if_neg hblank,Manager.tell_pg,Manager.withStore_pg,hafter]
          simp only [Except.map,orRefuse,move_untimed now s,hmove,untimedReply,Option.map_some,
            Option.map_none,landing,if_neg hthere]
          rfl

theorem effect_close (hm : Keyed m) (id : String) :
    Effect m ans (.close id) (readOf m ans now id) (m.apply ans now (.close id)) := by
  obtain ⟨m',read,hget,hpg,hcache,hread⟩ := hm.getSession ans now id
  rw [Manager.apply,Manager.closeSession,readOf,hget]
  cases read with
  | error e =>
    refine ⟨by rw [hpg],?_,hcache⟩
    rw [outcome,← hpg]
    rfl
  | ok s =>
    obtain ⟨hid,hne⟩ := hread s rfl
    have hsame : (close s).id=id := hid
    obtain ⟨pg₁,hsave,hb₁,hrow,hcontents⟩ :=
      contents_saveSession m'.pg (show (close s).id ≠ "" by rwa [hsame])
    rw [hsame] at hrow hcontents
    simp only [hsave,Manager.tell_pg,Manager.withStore_pg,Store.deleteSession_of_row hrow]
    refine ⟨by rw [← hpg,← hb₁]; rfl,?_,hcache.drop _⟩
    rw [Manager.withStore_pg,contents_remove,hcontents,update_idem,outcome,hpg]
    rfl

theorem effect_apply (hm : Keyed m) (ans : Answers) (now : Instant) (call : Call) :
    Effect m ans call (readOf m ans now (target call)) (m.apply ans now call) := by
  cases call with
  | create s => exact effect_create hm s
  | get id => exact effect_get hm id
  | heartbeat id up down => exact effect_heartbeat hm id up down
  | migrate id node ip => exact effect_migrate hm id node ip
  | close id => exact effect_close hm id

theorem orRefuse_frame {α : Type*} {rows : Contents} {proceed : α → Contents × Reply} {k : String}
    (h : ∀ a, (proceed a).1 k=rows k) (result : Except SessionError α) :
    (orRefuse rows result proceed).1 k=rows k := by
  cases result with
  | error e => rfl
  | ok a => exact h a

/-- A call changes the row of its own session only. -/
theorem outcome_frame (backend : Backend) (rows : Contents) (read : Except SessionError Session)
    (call : Call) {k : String} (hk : k≠target call) :
    (outcome backend rows read call).1 k=rows k := by
  cases call with
  | create s =>
    rw [outcome]
    split_ifs
    · rfl
    · exact update_of_ne hk _ _
  | get id => cases read <;> rfl
  | heartbeat id up down =>
    rw [outcome]
    split_ifs
    · rfl
    · exact orRefuse_frame (fun s => orRefuse_frame (fun _ => update_of_ne hk _ _) _) read
  | migrate id node ip =>
    rw [outcome]
    by_cases hblank : trimSpace node = ""
    · rw [if_pos hblank]
    · rw [if_neg hblank]
      refine orRefuse_frame (fun s => orRefuse_frame (fun moved => ?_) _) read
      cases moved with
      | none => rfl
      | some t =>
        rw [landing]
        split_ifs
        · rfl
        · exact update_of_ne hk _ _
  | close id => exact orRefuse_frame (fun _ => update_of_ne hk _ _) read

theorem Keyed.apply (hm : Keyed m) (call : Call) : Keyed (m.apply ans now call).1 := by
  intro k s expiry hentry
  have hcache : Recached ans (target call) m (m.apply ans now call).1 := (effect_apply hm ans now call).recached
  by_cases hk : k=target call
  · rw [hk] at hentry ⊢
    obtain ⟨hid,hne,-⟩ := hcache.entry s expiry hentry
    exact ⟨hid,hne⟩
  · rw [hcache.frame k hk] at hentry
    exact hm k s expiry hentry

/- Every copy in the cache is the row of its session, timestamps aside. -/
def Coherent (m : Manager) : Prop :=
  ∀ id s expiry, m.entry id=some (s, expiry) → contents m.pg id=some (untimed s)

theorem contents_apply (hm : Keyed m) (call : Call) : contents (m.apply ans now call).1.pg =
    (outcome m.pg.backend (contents m.pg) ((readOf m ans now (target call)).map untimed) call).1 :=
  congrArg Prod.fst (effect_apply hm ans now call).outcome

/-- A call whose writes to the cache succeed leaves it coherent. -/
theorem Coherent.apply (hm : Keyed m) (hc : Coherent m) (hwrite : ans.write=true)
    (hdel : ans.del=true) (call : Call) : Coherent (m.apply ans now call).1 := by
  intro k s expiry hentry
  have hcache : Recached ans (target call) m (m.apply ans now call).1 := (effect_apply hm ans now call).recached
  by_cases hk : k=target call
  · rw [hk] at hentry ⊢
    obtain ⟨-,-,hfresh | ⟨hkept,hsame⟩ | hfail | hfail⟩ := hcache.entry s expiry hentry
    · exact hfresh
    · rw [hsame]
      exact hc _ s expiry hkept
    · rw [hwrite] at hfail
      cases hfail
    · rw [hdel] at hfail
      cases hfail
  · rw [hcache.frame k hk] at hentry
    rw [contents_apply hm,outcome_frame _ _ _ _ hk]
    exact hc k s expiry hentry

/-- A read is the copy that the cache serves, or else the row. -/
theorem readOf_untimed (m : Manager) (ans : Answers) (now : Instant) (id : String) :
    (readOf m ans now id).map untimed =
      match m.cached ans now id with
      | some c => .ok (untimed c)
      | none => found m.pg.backend (contents m.pg) id := by
  rw [readOf,Manager.getSession]
  cases m.cached ans now id with
  | some c => rfl
  | none =>
    rw [Store.getSession,found,contents]
    cases m.pg.row id <;> rfl
end

/- When a copy in the cache does for a call what the row does. -/
def Serves (backend : Backend) (rows : Contents) (copy : Session) : Call → Prop
  | .create _ => True
  | .get id => rows id=some copy
  | .heartbeat id up down => (up<0 ∨ down<0) ∨
    ∃ s, rows id=some s ∧ beat copy 0 up down=beat s 0 up down
  | .migrate id node ip => trimSpace node = "" ∨
    (∃ s, rows id=some s ∧ (move copy 0 (trimSpace node) ip).map (fun moved => moved.getD s) =
      (move s 0 (trimSpace node) ip).map fun moved => moved.getD s) ∨
    -- the table answers alike to a read and to an edit of a row that is not there
    (backend = .postgres ∧ rows id=none ∧ ∃ s, move copy 0 (trimSpace node) ip = .ok (some s))
  | .close id => ∃ s, rows id=some s

section
variable {backend : Backend} {rows : Contents} {copy s : Session} {id : String}

theorem orRefuse_storing_iff {x y : Except SessionError Session} :
    orRefuse rows x (storing rows id) = orRefuse rows y (storing rows id) ↔ x=y := by
  refine ⟨fun h => ?_,fun h => by rw [h]⟩
  cases x with
  | error e =>
    cases y with
    | error e' => exact congrArg Except.error (Except.error.inj (congrArg Prod.snd h))
    | ok t => cases congrArg Prod.snd h
  | ok s =>
    cases y with
    | error e => cases congrArg Prod.snd h
    | ok t =>
      have hrow : update rows id (some s) id=update rows id (some t) id :=
        congrFun (congrArg Prod.fst h) id
      rw [update_self,update_self] at hrow
      rw [Option.some.inj hrow]

theorem beat_error {up down : Int} {e : SessionError} (h : beat copy 0 up down = .error e) :
    e = .decreasingCounters := by
  rw [beat] at h
  split_ifs at h
  exact (Except.error.inj h).symm

theorem heartbeat_outcome_iff (id : String) (up down : Int) :
    outcome backend rows (.ok copy) (.heartbeat id up down) =
        outcome backend rows (found backend rows id) (.heartbeat id up down) ↔
      Serves backend rows copy (.heartbeat id up down) := by
  rw [outcome,outcome,Serves]
  by_cases hneg : up<0 ∨ down<0
  · rw [if_pos hneg,if_pos hneg]
    exact iff_of_true rfl (.inl hneg)
  rw [if_neg hneg,if_neg hneg,found,or_iff_right hneg]
  cases rows id with
  | none =>
    refine iff_of_false (fun h => ?_) (by simp)
    have hreply := congrArg Prod.snd h
    simp only [orRefuse] at hreply
    split at hreply
    · rename_i e he
      rw [beat_error he] at hreply
      cases hreply
    · cases hreply
  | some s =>
    simp only [orRefuse_ok,orRefuse_storing_iff,Option.some.injEq,exists_eq_left']

theorem move_error {node ip : String} {e : SessionError} (h : move copy 0 node ip = .error e) :
    e = .inactive ∨ e = .notMigratable := by
  rw [move] at h
  split_ifs at h
  · exact .inl (Except.error.inj h).symm
  · exact .inr (Except.error.inj h).symm

/-- On a row that is there, a move ends with the session that it leaves. -/
theorem orRefuse_landing (hrow : rows id=some s) (x : Except SessionError (Option Session)) :
    orRefuse rows x (landing backend rows id) =
      orRefuse rows (x.map fun moved => moved.getD s) (storing rows id) := by
  cases x with
  | error e => rfl
  | ok moved =>
    cases moved with
    | none =>
      show landing backend rows id none=storing rows id s
      rw [landing,storing,← hrow,update_eq_self]
    | some t =>
      show landing backend rows id (some t)=storing rows id t
      rw [landing,if_neg (by rw [hrow]; exact nofun)]

theorem migrate_outcome_iff (id node ip : String) :
    outcome backend rows (.ok copy) (.migrate id node ip) =
        outcome backend rows (found backend rows id) (.migrate id node ip) ↔
      Serves backend rows copy (.migrate id node ip) := by
  rw [outcome,outcome,Serves]
  by_cases hblank : trimSpace node = ""
  · rw [if_pos hblank,if_pos hblank]
    exact iff_of_true rfl (.inl hblank)
  rw [if_neg hblank,if_neg hblank,found,or_iff_right hblank]
  cases hrow : rows id with
  | none =>
    simp only [orRefuse_ok,orRefuse_error]
    cases hmove : move copy 0 (trimSpace node) ip with
    | error e =>
      refine iff_of_false (fun h => ?_) (by simp)
      have he : e = .store (backend.noSession id) := Except.error.inj (congrArg Prod.snd h)
      rcases move_error hmove with h | h
      all_goals
        rw [h] at he
        cases he
    | ok moved =>
      cases moved with
      | none => exact iff_of_false (fun h => by cases congrArg Prod.snd h) (by simp)
      | some t =>
        rw [orRefuse_ok,landing,if_pos hrow]
        cases backend with
        | postgres => exact iff_of_true rfl (.inr ⟨rfl,trivial,t,rfl⟩)
        | memory =>
          refine iff_of_false (fun h => ?_) (by simp)
          cases congrArg Prod.snd h
  | some s =>
    simp only [orRefuse_ok]
    rw [orRefuse_landing hrow,orRefuse_landing hrow,orRefuse_storing_iff]
    simp

/-- A copy answers a call as the row does exactly when it serves. -/
theorem outcome_eq_iff (call : Call) :
    outcome backend rows (.ok copy) call =
        outcome backend rows (found backend rows (target call)) call ↔
      Serves backend rows copy call := by
  cases call with
  | create s => exact iff_of_true rfl trivial
  | get id =>
    rw [outcome,outcome,Serves,target,found]
    cases rows id <;> simp [eq_comm]
  | heartbeat id up down => exact heartbeat_outcome_iff id up down
  | migrate id node ip => exact migrate_outcome_iff id node ip
  | close id =>
    rw [outcome,outcome,Serves,target,found]
    cases rows id <;> simp
end

structure Pair where
  cached : Manager
  plain : Manager
  answers : List Reply
  plainAnswers : List Reply

inductive Event where
  | call (ans : Answers) (now : Instant) (call : Call)
  | lapseSession (id : String)
  | lapseUser (userId : String)

namespace Pair
/- A store with sessions in it, behind an empty cache and behind none. -/
def start (pg : Store) : Pair := ⟨⟨some .empty,pg⟩,⟨none,pg⟩,[],[]⟩

def handle (p : Pair) : Event → Pair
  | .call ans now call =>
    { cached := (p.cached.apply ans now call).1
      plain := (p.plain.apply ans now call).1
      answers := (p.cached.apply ans now call).2::p.answers
      plainAnswers := (p.plain.apply ans now call).2::p.plainAnswers }
  | .lapseSession id => { p with cached := p.cached.tell true fun r => r.del id }
  | .lapseUser userId => { p with cached := p.cached.tell true fun r => r.dropUser userId }

def run (p : Pair) (events : List Event) : Pair := events.foldl handle p

/-- The calls have had the same results and the stores hold the same, timestamps aside. -/
def Agree (p : Pair) : Prop :=
  contents p.cached.pg=contents p.plain.pg ∧
    p.answers.map untimedReply=p.plainAnswers.map untimedReply

/-- The copy that the cache gives to a call, if it gives one, serves. -/
def Served (p : Pair) : Event → Prop
  | .call ans now call => ∀ copy, p.cached.cached ans now (target call)=some copy →
    Serves p.cached.pg.backend (contents p.cached.pg) (untimed copy) call
  | _ => True

structure Inv (p : Pair) : Prop where
  keyed : Keyed p.cached
  plain : p.plain.redis=none
  backend : p.cached.pg.backend=p.plain.pg.backend

end Pair

theorem keyed_of_no_redis {m : Manager} (h : m.redis=none) : Keyed m := by
  intro id s expiry hentry
  rw [Manager.entry,h] at hentry
  cases hentry

theorem cached_of_no_redis {m : Manager} (h : m.redis=none) (ans : Answers) (now : Instant)
    (id : String) : m.cached ans now id=none := by
  rw [Manager.cached,h]
  split <;> rfl

namespace Pair
variable {p : Pair}

theorem Inv.start (pg : Store) : Inv (start pg) :=
  ⟨nofun,rfl,rfl⟩

theorem keyed_lapse {m : Manager} (hm : Keyed m) (id : String) :
    Keyed (m.tell true fun r => r.del id) := by
  intro k s expiry hentry
  rw [Manager.entry_tell_del] at hentry
  split_ifs at hentry
  exact hm k s expiry hentry

theorem entry_lapseUser (m : Manager) (userId k : String) :
    (m.tell true fun r => r.dropUser userId).entry k=m.entry k :=
  Manager.entry_tell_of_sessions (fun r => r.dropUser userId) (fun _ => rfl) m true k

theorem Inv.handle (hp : Inv p) (e : Event) : Inv (p.handle e) := by
  cases e with
  | call ans now call =>
    have hplain := keyed_of_no_redis hp.plain
    have hredis := (effect_apply hplain ans now call).recached.present
    rw [hp.plain] at hredis
    refine ⟨hp.keyed.apply call,Option.isNone_iff_eq_none.mp (Option.isSome_eq_false_iff.mp hredis),?_⟩
    exact ((effect_apply hp.keyed ans now call).backend.trans hp.backend).trans
      (effect_apply hplain ans now call).backend.symm
  | lapseSession id => exact ⟨keyed_lapse hp.keyed id,hp.plain,hp.backend⟩
  | lapseUser userId =>
    refine ⟨fun k s expiry hentry => ?_,hp.plain,hp.backend⟩
    rw [Pair.handle,entry_lapseUser] at hentry
    exact hp.keyed k s expiry hentry

theorem agree_handle_iff (hp : Inv p) (hagree : Agree p) (e : Event) :
    Agree (p.handle e) ↔ p.Served e := by
  cases e with
  | call ans now call =>
    have hcached := (effect_apply hp.keyed ans now call).outcome
    have hplain := (effect_apply (keyed_of_no_redis hp.plain) ans now call).outcome
    rw [readOf_untimed] at hcached hplain
    rw [cached_of_no_redis hp.plain,← hp.backend,← hagree.1] at hplain
    have hnext : Agree (p.handle (.call ans now call)) ↔
        (contents (p.cached.apply ans now call).1.pg, untimedReply (p.cached.apply ans now call).2) =
          (contents (p.plain.apply ans now call).1.pg, untimedReply (p.plain.apply ans now call).2) := by
      simp [Agree,handle,hagree.2]
    rw [hnext,hcached,hplain,Served]
    cases p.cached.cached ans now (target call) with
    | none => exact iff_of_true rfl nofun
    | some copy =>
      rw [outcome_eq_iff]
      exact ⟨fun h c hc => Option.some.inj hc ▸ h,fun h => h copy rfl⟩
  | lapseSession id => exact iff_of_true hagree trivial
  | lapseUser userId => exact iff_of_true hagree trivial

end Pair

/-- A cache shows exactly when some call is given a copy that does not serve. -/
theorem transparent_iff_served (pg : Store) (events : List Event) :
    (∀ before after, events=before++after → ((Pair.start pg).run before).Agree) ↔
      ∀ before e after, events=before++e::after → ((Pair.start pg).run before).Served e := by
  have hstep : ∀ p e, Pair.Inv p → p.Agree → ((p.handle e).Agree ↔ p.Served e) :=
    fun p e hp hagree => Pair.agree_handle_iff hp hagree e
  exact foldl_along_iff Pair.Inv (fun p e hp => hp.handle e) hstep events (Pair.Inv.start pg)
    ⟨rfl,rfl⟩

def device : Session where
  id := "s1"
  userId := "u1"
  subscriptionId := "sub"
  nodeId := "n1"
  protocol := "tuic"
  transport := "quic"
  clientIp := "10.0.0.1"
  isp := ""
  connId := "c1"
  startedAt := 0
  lastSeenAt := 0
  bytesUp := 0
  bytesDown := 0
  active := true
  migratedCount := 0

/- The write of the second call is lost. The third is measured against the copy of the first. -/
def lostWrite : List Event :=
  [.call .healthy 0 (.create device),
    .call { Answers.healthy with write := false } 1 (.heartbeat "s1" 100 100),
    .call .healthy 2 (.heartbeat "s1" 50 50)]

/-- Counters that go backwards are accepted by the cached manager alone. -/
theorem stale_counters_accepted : ¬ ∀ (pg : Store) (events : List Event),
    ((Pair.start pg).run events).Agree := by
  intro h
  have hanswers := (h (.empty .memory) lostWrite).2
  revert hanswers
  decide +kernel

end AetherX.SessionCache
