import Mathlib.Data.Finset.Card
import Mathlib.Data.List.Sort
import Mathlib.Data.Prod.Lex
import Mathlib.Data.String.Basic
import AetherX.SessionStore

/-! The session manager: a durable store behind a Redis cache that may be absent, and whose
failures no call reports. -/
namespace AetherX.SessionManager
open Supervisor (Instant Duration fromSecs)
open SessionStore List

def cacheTtl : Duration := fromSecs (24*60*60)

/- The sets of the users' sessions, each with the time when it lapses. A set that SADD has
   created has no such time yet, and a set is removed with its last member. -/
abbrev UserSets := String → Option (Finset String × Option Instant)

namespace UserSets
def live (sets : UserSets) (now : Instant) (userId : String) : Option (Finset String × Option Instant) :=
  (sets userId).filter fun entry => entry.2.all fun expiry => decide (now < expiry)

def members (sets : UserSets) (now : Instant) (userId : String) : Finset String :=
  match sets.live now userId with
  | some (ids, _) => ids
  | none => ∅

def put (sets : UserSets) (userId : String) (entry : Option (Finset String × Option Instant)) :
    UserSets :=
  Function.update sets userId entry

def sAdd (sets : UserSets) (now : Instant) (userId id : String) : UserSets :=
  match sets.live now userId with
  | some (ids, expiry) => sets.put userId (some (insert id ids, expiry))
  | none => sets.put userId (some ({id}, none))

def expire (sets : UserSets) (now : Instant) (userId : String) : UserSets :=
  match sets.live now userId with
  | some (ids, _) => sets.put userId (some (ids, some (now+cacheTtl)))
  | none => sets

def sRem (sets : UserSets) (now : Instant) (userId id : String) : UserSets :=
  match sets.live now userId with
  | some (ids, expiry) =>
    sets.put userId (if ids.erase id = ∅ then none else some (ids.erase id, expiry))
  | none => sets

end UserSets

/- The keys of the sessions and those of the users. -/
structure Redis where
  sessions : String → Option (Session × Instant)
  userSessions : UserSets

namespace Redis
def empty : Redis := ⟨fun _ => none,fun _ => none⟩

def get (r : Redis) (now : Instant) (id : String) : Option Session :=
  match r.sessions id with
  | some (s, expiry) => if now < expiry then some s else none
  | none => none

def set (r : Redis) (now : Instant) (id : String) (s : Session) : Redis :=
  { r with sessions := Function.update r.sessions id (some (s, now+cacheTtl)) }

def del (r : Redis) (id : String) : Redis :=
  { r with sessions := Function.update r.sessions id none }

def sAdd (r : Redis) (now : Instant) (userId id : String) : Redis :=
  { r with userSessions := r.userSessions.sAdd now userId id }

def expire (r : Redis) (now : Instant) (userId : String) : Redis :=
  { r with userSessions := r.userSessions.expire now userId }

def sRem (r : Redis) (now : Instant) (userId id : String) : Redis :=
  { r with userSessions := r.userSessions.sRem now userId id }

def sCard (r : Redis) (now : Instant) (userId : String) : Nat :=
  (r.userSessions.members now userId).card

/- A key that is gone before its time. -/
def dropUser (r : Redis) (userId : String) : Redis :=
  { r with userSessions := r.userSessions.put userId none }

end Redis

inductive SessionError where
  | idsRequired
  | pgSave (e : StoreError)
  | store (e : StoreError)
  | negativeCounters
  | decreasingCounters
  | targetRequired
  | inactive
  | notMigratable
  deriving DecidableEq

/- What each call makes of the session that it is given or has read. -/
section
variable (s : Session) (now : Instant)

def begin : Session := { s with startedAt := now, lastSeenAt := now, active := true }

def beat (bytesUp bytesDown : Int) : Except SessionError Session :=
  if bytesUp < s.bytesUp ∨ bytesDown < s.bytesDown then .error .decreasingCounters
  else .ok { s with lastSeenAt := now, bytesUp := bytesUp, bytesDown := bytesDown }

def migratable : Bool := supportsNativeQUICMigration s.protocol && trimSpace s.connId != ""

/- Nothing is written for a session that is on the node already. -/
def move (newNodeId newClientIp : String) : Except SessionError (Option Session) :=
  if s.active=false then .error .inactive
  else if migratable s=false then .error .notMigratable
  else if s.nodeId=newNodeId then .ok none
  else .ok (some { s with
    nodeId := newNodeId
    clientIp := if trimSpace newClientIp = "" then s.clientIp else newClientIp
    migratedCount := s.migratedCount+1
    lastSeenAt := now })

def close : Session := { s with active := false }
end

theorem beat_fields {s t : Session} {now : Instant} {up down : Int} (h : beat s now up down = .ok t) :
    t.id=s.id ∧ t.bytesUp=up ∧ t.bytesDown=down := by
  rw [beat] at h
  split_ifs at h
  obtain rfl := Except.ok.inj h
  exact ⟨rfl,rfl,rfl⟩

theorem move_fields {s t : Session} {now : Instant} {node ip : String}
    (h : move s now node ip = .ok (some t)) : t.id=s.id ∧ t.nodeId=node := by
  rw [move] at h
  split_ifs at h <;> cases h <;> exact ⟨rfl,rfl⟩

structure Manager where
  redis : Option Redis
  pg : Store

/- Which of a call's requests to Redis take effect. -/
structure Answers where
  get : Bool
  populate : Bool
  write : Bool
  sAdd : Bool
  expire : Bool
  del : Bool
  sRem : Bool
  sCard : Bool

def Answers.healthy : Answers := ⟨true,true,true,true,true,true,true,true⟩

namespace Manager
def withStore (m : Manager) (pg : Store) : Manager := { m with pg := pg }

def tell (m : Manager) (ok : Bool) (request : Redis → Redis) : Manager :=
  if ok then { m with redis := m.redis.map request } else m

section
variable (m : Manager) (ans : Answers) (now : Instant)

def cached (id : String) : Option Session :=
  if ans.get then m.redis.bind fun r => r.get now id else none

def createSession (s : Session) : Manager × Except SessionError Unit :=
  if trimSpace s.id = "" ∨ trimSpace s.userId = "" then (m, .error .idsRequired)
  else
    match m.pg.saveSession (begin s now) with
    | .error e => (m, .error (.pgSave e))
    | .ok pg =>
      ((((m.withStore pg).tell ans.write fun r => r.set now s.id (begin s now)).tell ans.sAdd
        fun r => r.sAdd now s.userId s.id).tell ans.expire fun r => r.expire now s.userId, .ok ())

def getSession (id : String) : Manager × Except SessionError Session :=
  match m.cached ans now id with
  | some s => (m, .ok s)
  | none =>
    match m.pg.getSession id with
    | .error e => (m, .error (.store e))
    | .ok s => (m.tell ans.populate fun r => r.set now id s, .ok s)

/- The error of UpdateBytes is dropped. -/
def heartbeat (id : String) (bytesUp bytesDown : Int) : Manager × Except SessionError Unit :=
  if bytesUp<0 ∨ bytesDown<0 then (m, .error .negativeCounters)
  else
    match m.getSession ans now id with
    | (m, .error e) => (m, .error e)
    | (m, .ok s) =>
      match beat s now bytesUp bytesDown with
      | .error e => (m, .error e)
      | .ok s =>
        match m.pg.saveSession s with
        | .error e => (m, .error (.store e))
        | .ok pg =>
          let pg := match pg.updateBytes id bytesUp bytesDown with
            | .ok pg => pg
            | .error _ => pg
          ((m.withStore pg).tell ans.write fun r => r.set now id s, .ok ())

def migrateSession (id newNodeId newClientIp : String) : Manager × Except SessionError Unit :=
  if trimSpace newNodeId = "" then (m, .error .targetRequired)
  else
    match m.getSession ans now id with
    | (m, .error e) => (m, .error e)
    | (m, .ok s) =>
      match move s now (trimSpace newNodeId) newClientIp with
      | .error e => (m, .error e)
      | .ok none => (m, .ok ())
      | .ok (some s) =>
        match m.pg.recordMigration id (trimSpace newNodeId) with
        | .error e => (m, .error (.store e))
        | .ok pg =>
          match pg.saveSession s with
          | .error e => (m.withStore pg, .error (.store e))
          | .ok pg => ((m.withStore pg).tell ans.write fun r => r.set now id s, .ok ())

def closeSession (id : String) : Manager × Except SessionError Unit :=
  match m.getSession ans now id with
  | (m, .error e) => (m, .error e)
  | (m, .ok s) =>
    match m.pg.saveSession (close s) with
    | .error e => (m, .error (.store e))
    | .ok pg =>
      let m := ((m.withStore pg).tell ans.del fun r => r.del id).tell
        (ans.sRem && s.userId != "") fun r => r.sRem now s.userId id
      match m.pg.deleteSession id with
      | .error e => (m, .error (.store e))
      | .ok pg => (m.withStore pg, .ok ())

def countActive (userId : String) : Nat :=
  match m.redis with
  | some r => if ans.sCard then r.sCard now userId else (m.pg.listActiveByUser userId).length
  | none => (m.pg.listActiveByUser userId).length
end

def entry (m : Manager) (id : String) : Option (Session × Instant) :=
  m.redis.bind fun r => r.sessions id

variable (m : Manager)

@[simp] theorem tell_pg (ok : Bool) (request : Redis → Redis) : (m.tell ok request).pg=m.pg := by
  rw [tell]
  split <;> rfl

@[simp] theorem withStore_pg (pg : Store) : (m.withStore pg).pg=pg := rfl

@[simp] theorem withStore_redis (pg : Store) : (m.withStore pg).redis=m.redis := rfl

@[simp] theorem withStore_entry (pg : Store) (id : String) :
    (m.withStore pg).entry id=m.entry id := rfl

theorem tell_redis (ok : Bool) (request : Redis → Redis) :
    (m.tell ok request).redis=if ok then m.redis.map request else m.redis := by
  rw [tell]
  split <;> rfl

@[simp] theorem isSome_tell (ok : Bool) (request : Redis → Redis) :
    (m.tell ok request).redis.isSome=m.redis.isSome := by
  rw [tell_redis]
  split
  · exact Option.isSome_map
  · rfl

theorem entry_tell (ok : Bool) (request : Redis → Redis) (id : String) :
    (m.tell ok request).entry id =
      if ok then m.redis.bind fun r => (request r).sessions id else m.entry id := by
  rw [entry,tell_redis]
  split
  · rw [Option.bind_map]
    rfl
  · rfl

/-- Requests about the sets of users leave the sessions alone. -/
theorem entry_tell_of_sessions (request : Redis → Redis) (h : ∀ r, (request r).sessions=r.sessions)
    (m : Manager) (ok : Bool) (id : String) : (m.tell ok request).entry id=m.entry id := by
  rw [entry_tell]
  simp only [h]
  exact ite_self _

theorem entry_tell_set (ok : Bool) (now : Instant) (id k : String) (s : Session) :
    (m.tell ok fun r => r.set now id s).entry k =
      if ok=true ∧ k=id then m.redis.map fun _ => (s, now+cacheTtl) else m.entry k := by
  rw [entry_tell]
  cases hok : ok with
  | false => rfl
  | true =>
    by_cases hk : k=id
    · subst hk
      cases hr : m.redis <;> simp [Redis.set]
    · simp [Redis.set,hk,entry]

theorem entry_tell_del (ok : Bool) (id k : String) :
    (m.tell ok fun r => r.del id).entry k =
      if ok=true ∧ k=id then none else m.entry k := by
  rw [entry_tell]
  cases hok : ok with
  | false => rfl
  | true =>
    by_cases hk : k=id
    · subst hk
      cases hr : m.redis <;> simp [Redis.del]
    · simp [Redis.del,hk,entry]

end Manager

inductive Call where
  | create (s : Session)
  | get (id : String)
  | heartbeat (id : String) (bytesUp bytesDown : Int)
  | migrate (id newNodeId newClientIp : String)
  | close (id : String)

def target : Call → String
  | .create s => s.id
  | .get id => id
  | .heartbeat id _ _ => id
  | .migrate id _ _ => id
  | .close id => id

abbrev Reply := Except SessionError (Option Session)

/- A call and its answer; only a get answers with a session. -/
def Manager.apply (m : Manager) (ans : Answers) (now : Instant) : Call → Manager × Reply
  | .create s => ((m.createSession ans now s).1, (m.createSession ans now s).2.map fun _ => none)
  | .get id => ((m.getSession ans now id).1, (m.getSession ans now id).2.map some)
  | .heartbeat id up down =>
    ((m.heartbeat ans now id up down).1, (m.heartbeat ans now id up down).2.map fun _ => none)
  | .migrate id node ip =>
    ((m.migrateSession ans now id node ip).1, (m.migrateSession ans now id node ip).2.map fun _ => none)
  | .close id => ((m.closeSession ans now id).1, (m.closeSession ans now id).2.map fun _ => none)

section
variable (m : Manager) (ans : Answers) (now : Instant)

theorem apply_create (s : Session) :
    (m.apply ans now (.create s)).1=(m.createSession ans now s).1 := by
  rw [Manager.apply]

theorem apply_get (id : String) : (m.apply ans now (.get id)).1=(m.getSession ans now id).1 := by
  rw [Manager.apply]

theorem apply_heartbeat (id : String) (up down : Int) :
    (m.apply ans now (.heartbeat id up down)).1=(m.heartbeat ans now id up down).1 := by
  rw [Manager.apply]

theorem apply_migrate (id node ip : String) :
    (m.apply ans now (.migrate id node ip)).1=(m.migrateSession ans now id node ip).1 := by
  rw [Manager.apply]

theorem apply_close (id : String) :
    (m.apply ans now (.close id)).1=(m.closeSession ans now id).1 := by
  rw [Manager.apply]
end

/- FNV-1a over 32 bits. -/
def fnv32a (bytes : List UInt8) : UInt32 :=
  bytes.foldl (fun hash b => (hash ^^^ b.toUInt32)*16777619) 2166136261

def bytesOf (s : String) : List UInt8 := s.toUTF8.data.toList

/- The stripe of the lock array that an identifier hashes to. -/
def sessionLock (id : String) : Fin 64 := Fin.ofNat 64 (fnv32a (bytesOf id)).toNat

def failoverNodes (currentNode : String) (candidates : List String) : List String :=
  (((candidates.map trimSpace).filter fun node => node ≠ "").dedup.filter
    fun node => node≠currentNode).insertionSort (· ≤ ·)

def failoverScore (sessionId node : String) : UInt32 :=
  fnv32a (bytesOf sessionId++bytesOf "|" ++ bytesOf node)

def better (sessionId : String) (best : String × UInt32) (node : String) : String × UInt32 :=
  if best.2 < failoverScore sessionId node then (node, failoverScore sessionId node) else best

def selectFailoverNode (sessionId currentNode : String) (candidates : List String) : Option String :=
  match failoverNodes currentNode candidates with
  | [] => none
  | node::nodes => some ((node::nodes).foldl (better sessionId) (node, 0)).1

section
variable (sessionId : String) {currentNode node name : String} {candidates others nodes : List String}

/- Of equal scores the smaller name ranks higher. -/
def rank (node : String) : Nat ×ₗ Stringᵒᵈ :=
  toLex ((failoverScore sessionId node).toNat, OrderDual.toDual node)

def Highest (nodes : Set String) (best : String) : Prop :=
  best∈nodes ∧ ∀ name∈nodes, rank sessionId name ≤ rank sessionId best

variable {sessionId} in
theorem rank_le_iff : rank sessionId name ≤ rank sessionId node ↔
    failoverScore sessionId name < failoverScore sessionId node ∨
      failoverScore sessionId name=failoverScore sessionId node ∧ node ≤ name := by
  rw [rank,rank,Prod.Lex.toLex_le_toLex,UInt32.lt_iff_toNat_lt,← UInt32.toNat_inj,
    OrderDual.toDual_le_toDual]

theorem better_cases (h : node ≤ name) :
    ∃ best, better sessionId (node, failoverScore sessionId node) name =
      (best, failoverScore sessionId best) ∧ (best=node ∨ best=name) ∧
      rank sessionId node ≤ rank sessionId best ∧ rank sessionId name ≤ rank sessionId best := by
  by_cases hbetter : failoverScore sessionId node < failoverScore sessionId name
  · exact ⟨name,if_pos hbetter,.inr rfl,rank_le_iff.mpr (.inl hbetter),le_refl _⟩
  · refine ⟨node,if_neg hbetter,.inl rfl,le_refl _,rank_le_iff.mpr ?_⟩
    rcases UInt32.lt_or_eq_of_le (UInt32.not_lt.mp hbetter) with hlt | heq
    · exact .inl hlt
    · exact .inr ⟨heq,h⟩

/-- The scan of a sorted list ends at the node that ranks highest. -/
theorem foldl_better (hsorted : (node::nodes).Pairwise (· ≤ ·)) :
    Highest sessionId {name | name∈node::nodes}
      (nodes.foldl (better sessionId) (node, failoverScore sessionId node)).1 := by
  induction nodes generalizing node with
  | nil =>
    refine ⟨mem_singleton_self node,fun name hname => ?_⟩
    rw [mem_singleton.mp hname]
    exact le_refl _
  | cons next nodes ih =>
    obtain ⟨hfirst,hrest⟩ := pairwise_cons.mp hsorted
    obtain ⟨best,hstep,hbest,hnode,hnext⟩ := better_cases sessionId (hfirst next mem_cons_self)
    have hkept : (best::nodes).Pairwise (· ≤ ·) := by
      rcases hbest with rfl | rfl
      · exact hsorted.sublist (.cons_cons _ (sublist_cons_self next nodes))
      · exact hrest
    obtain ⟨hmem,hmax⟩ := ih hkept
    rw [foldl_cons,hstep]
    constructor
    · rcases mem_cons.mp hmem with heq | hmem
      · rw [heq]
        rcases hbest with rfl | rfl
        · exact mem_cons_self
        · exact mem_cons_of_mem node mem_cons_self
      · exact mem_cons_of_mem node (mem_cons_of_mem next hmem)
    · have htop := hmax best mem_cons_self
      exact forall_mem_cons.mpr ⟨hnode.trans htop,forall_mem_cons.mpr ⟨hnext.trans htop,
        fun name hname => hmax name (mem_cons_of_mem best hname)⟩⟩

/- The names among which a destination is chosen. -/
def Offered (currentNode : String) (candidates : List String) : Set String :=
  {name | (∃ candidate∈candidates, trimSpace candidate=name) ∧ name ≠ "" ∧ name≠currentNode}

theorem mem_offered : name∈Offered currentNode candidates ↔
    (∃ candidate∈candidates, trimSpace candidate=name) ∧ name ≠ "" ∧ name≠currentNode := Iff.rfl

theorem mem_failoverNodes : name∈failoverNodes currentNode candidates ↔
    name∈Offered currentNode candidates := by
  simp [failoverNodes,mem_offered,and_assoc]

theorem select_some_iff : selectFailoverNode sessionId currentNode candidates=some node ↔
    Highest sessionId (Offered currentNode candidates) node := by
  have hset : Offered currentNode candidates={name | name∈failoverNodes currentNode candidates} :=
    Set.ext fun name => mem_failoverNodes.symm
  have hsorted : (failoverNodes currentNode candidates).Pairwise (· ≤ ·) :=
    pairwise_insertionSort _ _
  rw [hset,selectFailoverNode]
  cases hnodes : failoverNodes currentNode candidates with
  | nil => simp [Highest]
  | cons first rest =>
    rw [hnodes] at hsorted
    -- A score of nought leaves the first node in its place.
    have hstart : better sessionId (first, 0) first=(first, failoverScore sessionId first) := by
      rw [better]
      split_ifs with hpos
      · rfl
      · rw [UInt32.le_zero_iff.mp (UInt32.not_lt.mp hpos)]
    have hbest := foldl_better sessionId hsorted
    rw [← hstart,← foldl_cons] at hbest
    rw [Option.some.injEq]
    refine ⟨fun h => h ▸ hbest,fun h => ?_⟩
    have hrank := le_antisymm (h.2 _ hbest.1) (hbest.2 _ h.1)
    exact congrArg (fun r => OrderDual.ofDual (ofLex r).2) hrank

theorem select_none_iff : selectFailoverNode sessionId currentNode candidates=none ↔
    Offered currentNode candidates = ∅ := by
  simp only [Set.eq_empty_iff_forall_notMem,← mem_failoverNodes,← eq_nil_iff_forall_not_mem]
  rw [selectFailoverNode]
  split <;> simp [*]

theorem select_congr (h : Offered currentNode candidates = Offered currentNode others) :
    selectFailoverNode sessionId currentNode candidates =
      selectFailoverNode sessionId currentNode others :=
  Option.ext fun node => by rw [select_some_iff,h,← select_some_iff]

theorem select_insert (before after : List String) (candidate : String) :
    let choice := selectFailoverNode sessionId currentNode
    choice (before++candidate::after)=choice (before++after) ∨
      choice (before++candidate::after)=some (trimSpace candidate) := by
  intro choice
  have hmore : ∀ name∈Offered currentNode (before++after),
      name∈Offered currentNode (before++candidate::after) := by
    simp only [mem_offered,mem_append,mem_cons]
    grind
  cases hsel : choice (before++candidate::after) with
  | none =>
    have hnone := Set.subset_eq_empty hmore ((select_none_iff sessionId).mp hsel)
    exact .inl ((select_none_iff sessionId).mpr hnone).symm
  | some node =>
    obtain ⟨hmem,hmax⟩ := (select_some_iff sessionId).mp hsel
    by_cases hnode : node∈Offered currentNode (before++after)
    · exact .inl ((select_some_iff sessionId).mpr
        ⟨hnode,fun name hname => hmax name (hmore name hname)⟩).symm
    · right
      simp only [mem_offered,mem_append,mem_cons] at hmem hnode
      grind

/-- The destination depends only on the names that are offered, and a name more takes over only
for itself. -/
theorem failover_choice_stable (sessionId currentNode : String) (candidates : List String) :
    ((∃ node, selectFailoverNode sessionId currentNode candidates=some node) ↔
      ∃ candidate∈candidates, trimSpace candidate ≠ "" ∧ trimSpace candidate≠currentNode) ∧
    let choice := selectFailoverNode sessionId currentNode
    (∀ node, choice candidates=some node →
      (∃ candidate∈candidates, trimSpace candidate=node) ∧ node ≠ "" ∧ node≠currentNode) ∧
    (∀ others, others.Perm candidates → choice others=choice candidates) ∧
    (∀ candidate∈candidates, choice (candidate::candidates)=choice candidates) ∧
    (∀ others, List.Forall₂ (fun candidate other => ∃ left right : String,
        left.toList.all isSpace ∧ right.toList.all isSpace ∧ other=left++candidate++right)
      candidates others → choice others=choice candidates) ∧
    (∀ before candidate after, candidates=before++candidate::after →
      choice candidates≠some (trimSpace candidate) → choice (before++after)=choice candidates) ∧
    ∀ before candidate after, candidates=before++after →
      choice (before++candidate::after)=choice candidates ∨
        choice (before++candidate::after)=some (trimSpace candidate) := by
  refine ⟨?_,fun node h => ((select_some_iff sessionId).mp h).1,?_,?_,?_,?_,?_⟩
  · rw [← Option.ne_none_iff_exists',ne_eq,select_none_iff,← ne_eq,← Set.nonempty_iff_ne_empty,
      Set.Nonempty]
    simp [mem_offered]
  · intro others hperm
    exact select_congr sessionId (Set.ext fun name => by simp [mem_offered,hperm.mem_iff])
  · intro candidate hmem
    refine select_congr sessionId (Set.ext fun name => ?_)
    rw [mem_offered,mem_offered,exists_mem_cons_iff]
    grind
  · intro others hpad
    have hnames : others.map trimSpace=candidates.map trimSpace := by
      induction hpad with
      | nil => rfl
      | cons hone _ ih =>
        obtain ⟨left,right,hleft,hright,rfl⟩ := hone
        rw [map_cons,map_cons,ih,trimSpace_pad hleft hright]
    exact select_congr sessionId (Set.ext fun name => by simp only [mem_offered,← mem_map,hnames])
  · rintro before candidate after rfl hkept
    exact ((select_insert sessionId before after candidate).resolve_right hkept).symm
  · rintro before candidate after rfl
    exact select_insert sessionId before after candidate
end

end AetherX.SessionManager
