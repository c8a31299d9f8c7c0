import AetherX.SessionCache

/-! Threads on one session manager. A call takes its requests to Redis and to the store one
after the other; every call but GetSession holds the stripe of its session meanwhile. No request
fails. -/
namespace AetherX.SessionThreads
open Supervisor (Instant Duration fromSecs)
open SessionStore SessionManager Machine
open SessionCache (Keyed entry_of_cached)
variable {τ : Type*}

/- What is refused before anything is read. -/
def refusal : Call → Option SessionError
  | .create s =>
    if trimSpace s.id = "" ∨ trimSpace s.userId = "" then some .idsRequired else none
  | .get _ => none
  | .heartbeat _ up down => if up<0 ∨ down<0 then some .negativeCounters else none
  | .migrate _ node _ => if trimSpace node = "" then some .targetRequired else none
  | .close _ => none

/- What a call makes of its session at the time it reads the clock. -/
def edit (call : Call) (now : Instant) (s : Session) : Except SessionError (Option Session) :=
  match call with
  | .create _ => .ok (some (begin s now))
  | .get _ => .ok none
  | .heartbeat _ up down => (beat s now up down).map some
  | .migrate _ node ip => move s now (trimSpace node) ip
  | .close _ => .ok (some (close s))

def locked : Call → Bool
  | .get _ => false
  | _ => true

def saveError (call : Call) (e : StoreError) : SessionError :=
  match call with
  | .create _ => .pgSave e
  | _ => .store e

/- The next request of a call, with the session that it has in hand. -/
inductive Stage where
  | reading
  | loading
  | filling (s : Session)
  | working (s : Session)
  | recording (s : Session)
  | saving (s : Session)
  | counting (s : Session)
  | caching (s : Session)
  | adding (s : Session)
  | expiring (s : Session)
  | evicting (s : Session)
  | delisting (s : Session)
  | deleting (s : Session)

namespace Stage
def copy : Stage → Option Session
  | .reading | .loading => none
  | .filling s | .working s | .recording s | .saving s | .counting s | .caching s | .adding s
  | .expiring s | .evicting s | .delisting s | .deleting s => some s

def first : Call → Stage
  | .create s => .working s
  | _ => .reading

def afterEdit (call : Call) (s : Session) : Stage :=
  match call with
  | .migrate .. => .recording s
  | _ => .saving s

def afterSave (call : Call) (s : Session) : Stage :=
  match call with
  | .heartbeat .. => .counting s
  | .close _ => .evicting s
  | _ => .caching s

end Stage

inductive Next where
  | go (stage : Stage)
  | done (result : Except SessionError Session)

/- Only a creation goes on to the set of its user. -/
def afterCache (call : Call) (s : Session) : Next :=
  match call with
  | .create _ => .go (.adding s)
  | _ => .done (.ok s)

/- One request. A migration sets the node of its session before it records it. -/
def next (call : Call) (now : Instant) (m : Manager) : Stage → Manager × Next
  | .reading =>
    match m.cached .healthy now (target call) with
    | some s => (m, .go (.working s))
    | none => (m, .go .loading)
  | .loading =>
    match m.pg.getSession (target call) with
    | .error e => (m, .done (.error (.store e)))
    | .ok s => (m, .go (if m.redis.isSome then .filling s else .working s))
  | .filling s => (m.tell true fun r => r.set now (target call) s, .go (.working s))
  | .working s =>
    match edit call now s with
    | .error e => (m, .done (.error e))
    | .ok none => (m, .done (.ok s))
    | .ok (some s) => (m, .go (.afterEdit call s))
  | .recording s =>
    match m.pg.recordMigration (target call) s.nodeId with
    | .error e => (m, .done (.error (.store e)))
    | .ok pg => (m.withStore pg, .go (.saving s))
  | .saving s =>
    match m.pg.saveSession s with
    | .error e => (m, .done (.error (saveError call e)))
    | .ok pg => (m.withStore pg, .go (.afterSave call s))
  | .counting s =>
    match m.pg.updateBytes (target call) s.bytesUp s.bytesDown with
    | .error _ => (m, .go (.caching s))
    | .ok pg => (m.withStore pg, .go (.caching s))
  | .caching s =>
    (m.tell true fun r => r.set now (target call) s, afterCache call s)
  | .adding s => (m.tell true fun r => r.sAdd now s.userId (target call), .go (.expiring s))
  | .expiring s => (m.tell true fun r => r.expire now s.userId, .done (.ok s))
  | .evicting s => (m.tell true fun r => r.del (target call), .go (.delisting s))
  | .delisting s =>
    (m.tell (s.userId != "") fun r => r.sRem now s.userId (target call), .go (.deleting s))
  | .deleting s =>
    match m.pg.deleteSession (target call) with
    | .error e => (m, .done (.error (.store e)))
    | .ok pg => (m.withStore pg, .done (.ok s))

inductive Does (call : Call) (now : Instant) (m : Manager) : Stage → Manager → Next → Prop
  | hit (s : Session) : m.cached .healthy now (target call)=some s →
    Does call now m .reading m (.go (.working s))
  | missed : m.cached .healthy now (target call)=none → Does call now m .reading m (.go .loading)
  | absent (e : StoreError) : m.pg.getSession (target call) = .error e →
    Does call now m .loading m (.done (.error (.store e)))
  | loaded (s : Session) : m.pg.row (target call)=some s → m.redis.isSome=true →
    Does call now m .loading m (.go (.filling s))
  | uncached (s : Session) : m.pg.row (target call)=some s → m.redis.isSome=false →
    Does call now m .loading m (.go (.working s))
  | filled (s : Session) : Does call now m (.filling s)
    (m.tell true fun r => r.set now (target call) s) (.go (.working s))
  | refused (s : Session) (e : SessionError) : edit call now s = .error e →
    Does call now m (.working s) m (.done (.error e))
  | kept (s : Session) : edit call now s = .ok none → Does call now m (.working s) m (.done (.ok s))
  | edited (s t : Session) : edit call now s = .ok (some t) →
    Does call now m (.working s) m (.go (.afterEdit call t))
  | unrecorded (s : Session) (e : StoreError) : m.pg.recordMigration (target call) s.nodeId = .error e →
    Does call now m (.recording s) m (.done (.error (.store e)))
  | recorded (s : Session) (pg : Store) : m.pg.recordMigration (target call) s.nodeId = .ok pg →
    Does call now m (.recording s) (m.withStore pg) (.go (.saving s))
  | unsaved (s : Session) (e : StoreError) : m.pg.saveSession s = .error e →
    Does call now m (.saving s) m (.done (.error (saveError call e)))
  | saved (s : Session) (pg : Store) : m.pg.saveSession s = .ok pg →
    Does call now m (.saving s) (m.withStore pg) (.go (.afterSave call s))
  | uncounted (s : Session) (e : StoreError) :
    m.pg.updateBytes (target call) s.bytesUp s.bytesDown = .error e →
    Does call now m (.counting s) m (.go (.caching s))
  | counted (s : Session) (pg : Store) :
    m.pg.updateBytes (target call) s.bytesUp s.bytesDown = .ok pg →
    Does call now m (.counting s) (m.withStore pg) (.go (.caching s))
  | cached (s : Session) : Does call now m (.caching s)
    (m.tell true fun r => r.set now (target call) s) (afterCache call s)
  | added (s : Session) : Does call now m (.adding s)
    (m.tell true fun r => r.sAdd now s.userId (target call)) (.go (.expiring s))
  | expired (s : Session) : Does call now m (.expiring s)
    (m.tell true fun r => r.expire now s.userId) (.done (.ok s))
  | evicted (s : Session) : Does call now m (.evicting s)
    (m.tell true fun r => r.del (target call)) (.go (.delisting s))
  | delisted (s : Session) : Does call now m (.delisting s)
    (m.tell (s.userId != "") fun r => r.sRem now s.userId (target call)) (.go (.deleting s))
  | undeleted (s : Session) (e : StoreError) : m.pg.deleteSession (target call) = .error e →
    Does call now m (.deleting s) m (.done (.error (.store e)))
  | deleted (s : Session) (pg : Store) : m.pg.deleteSession (target call) = .ok pg →
    Does call now m (.deleting s) (m.withStore pg) (.done (.ok s))

theorem does_next (call : Call) (now : Instant) (m : Manager) (stage : Stage) :
    Does call now m stage (next call now m stage).1 (next call now m stage).2 := by
  cases stage with
  | reading =>
    rw [next]
    cases h : m.cached .healthy now (target call) with
    | some s => exact .hit s h
    | none => exact .missed h
  | loading =>
    rw [next]
    cases h : m.pg.getSession (target call) with
    | error e => exact .absent e h
    | ok s =>
      have hrow := Store.getSession_eq_ok_iff.mp h
      cases hredis : m.redis.isSome with
      | true => exact .loaded s hrow hredis
      | false => exact .uncached s hrow hredis
  | filling s => exact .filled s
  | working s =>
    rw [next]
    cases h : edit call now s with
    | error e => exact .refused s e h
    | ok edited =>
      cases edited with
      | none => exact .kept s h
      | some t => exact .edited s t h
  | recording s =>
    rw [next]
    cases h : m.pg.recordMigration (target call) s.nodeId with
    | error e => exact .unrecorded s e h
    | ok pg => exact .recorded s pg h
  | saving s =>
    rw [next]
    cases h : m.pg.saveSession s with
    | error e => exact .unsaved s e h
    | ok pg => exact .saved s pg h
  | counting s =>
    rw [next]
    cases h : m.pg.updateBytes (target call) s.bytesUp s.bytesDown with
    | error e => exact .uncounted s e h
    | ok pg => exact .counted s pg h
  | caching s => exact .cached s
  | adding s => exact .added s
  | expiring s => exact .expired s
  | evicting s => exact .evicted s
  | delisting s => exact .delisted s
  | deleting s =>
    rw [next]
    cases h : m.pg.deleteSession (target call) with
    | error e => exact .undeleted s e h
    | ok pg => exact .deleted s pg h

/- The sessions that AutoFailover has listed and not looked at yet. -/
structure Loop where
  nodes : List String
  cutoff : Instant
  rest : List Session
  migrated : Nat

inductive Caller where
  | client
  | failover (loop : Loop)

structure Frame where
  call : Call
  caller : Caller

inductive Outcome where
  | returned (result : Except SessionError Session)
  | failedOver (migrated : Nat)

inductive Task where
  | idle (outcome : Option Outcome)
  | waiting (frame : Frame)
  | inside (frame : Frame) (stage : Stage)
  | leaving (frame : Frame) (result : Except SessionError Session)
  -- AutoFailover
  | listing (userId : String) (nodes : List String)
  | cutting (nodes : List String) (sessions : List Session)
  | choosing (loop : Loop)

def staleAfter : Duration := fromSecs 120

/- An error of MigrateSession is not counted, and not reported either. -/
def Caller.resume : Caller → Except SessionError Session → Task
  | .client, result => .idle (some (.returned result))
  | .failover loop, .ok _ => .choosing { loop with migrated := loop.migrated+1 }
  | .failover loop, .error _ => .choosing loop

def Loop.pass (loop : Loop) (rest : List Session) : Loop := { loop with rest := rest }

def Loop.migration (loop : Loop) (s : Session) (rest : List Session) (node : String) : Frame :=
  ⟨.migrate s.id node s.clientIp,.failover (loop.pass rest)⟩

/- The next session of the list: one that is stale and can be moved is migrated to the node that
   is selected for it. -/
def Loop.next (loop : Loop) : Task :=
  match loop.rest with
  | [] => .idle (some (.failedOver loop.migrated))
  | s::rest =>
    if migratable s=true ∧ s.lastSeenAt < loop.cutoff then
      match selectFailoverNode s.id s.nodeId loop.nodes with
      | none => .choosing (loop.pass rest)
      | some node =>
        match refusal (loop.migration s rest node).call with
        | some _ => .choosing (loop.pass rest)
        | none => .waiting (loop.migration s rest node)
    else .choosing (loop.pass rest)

structure Threads (τ : Type*) where
  manager : Manager
  now : Instant
  holder : Fin 64 → Option τ
  task : τ → Task

/- A list of rows comes in some order of the store's. -/
inductive Event (τ : Type*) where
  | call (t : τ) (call : Call)
  | failover (t : τ) (userId : String) (nodes : List String)
  | resume (t : τ) (order : List Session)
  | tick (d : Duration)

def arrange (order rows : List Session) : List Session := if order.Perm rows then order else rows

namespace Threads
variable [DecidableEq τ]

def start (m : Manager) (now : Instant) : Threads τ := ⟨m,now,fun _ => none,fun _ => .idle none⟩

def become (w : Threads τ) (t : τ) (task : Task) : Threads τ :=
  { w with task := Function.update w.task t task }

def stripe (frame : Frame) : Fin 64 := sessionLock (target frame.call)

def acquire (w : Threads τ) (t : τ) (frame : Frame) : Threads τ :=
  { w with holder := Function.update w.holder (stripe frame) (some t) }

def release (w : Threads τ) (frame : Frame) : Threads τ :=
  if locked frame.call then { w with holder := Function.update w.holder (stripe frame) none } else w

def withManager (w : Threads τ) (m : Manager) : Threads τ := { w with manager := m }

/- A get goes in without a lock. -/
def enter (w : Threads τ) (t : τ) (frame : Frame) : Threads τ :=
  if locked frame.call then w.become t (.waiting frame)
  else w.become t (.inside frame (.first frame.call))

def resume (w : Threads τ) (t : τ) (order : List Session) : Threads τ :=
  match w.task t with
  | .idle _ => w
  | .waiting frame =>
    match w.holder (stripe frame) with
    | some _ => w
    | none => (w.acquire t frame).become t (.inside frame (.first frame.call))
  | .inside frame stage =>
    match next frame.call w.now w.manager stage with
    | (m, .go stage) => (w.withManager m).become t (.inside frame stage)
    | (m, .done result) => (w.withManager m).become t (.leaving frame result)
  | .leaving frame result => (w.release frame).become t (frame.caller.resume result)
  | .listing userId nodes =>
    w.become t (.cutting nodes (arrange order (w.manager.pg.listActiveByUser userId)))
  | .cutting nodes sessions => w.become t (.choosing ⟨nodes,w.now-staleAfter,sessions,0⟩)
  | .choosing loop => w.become t loop.next

def handle (w : Threads τ) : Event τ → Threads τ
  | .call t call =>
    match w.task t with
    | .idle _ =>
      match refusal call with
      | some e => w.become t (.idle (some (.returned (.error e))))
      | none => w.enter t ⟨call,.client⟩
    | _ => w
  | .failover t userId nodes =>
    match w.task t with
    | .idle _ => w.become t (.listing userId nodes)
    | _ => w
  | .resume t order => w.resume t order
  | .tick d => { w with now := w.now+d }

end Threads

/- The call that a thread is in, from its lock to its return. -/
def Task.frame : Task → Option Frame
  | .inside frame _ => some frame
  | .leaving frame _ => some frame
  | _ => none

theorem frame_resume (caller : Caller) (result : Except SessionError Session) :
    (caller.resume result).frame=none := by
  cases caller with
  | client => rfl
  | failover loop => cases result <;> rfl

/- A session of the list that AutoFailover turns to. -/
def Loop.Turns (loop : Loop) (s : Session) (rest : List Session) (node : String) : Prop :=
  s.lastSeenAt < loop.cutoff ∧ selectFailoverNode s.id s.nodeId loop.nodes=some node ∧
    refusal (loop.migration s rest node).call=none

theorem next_cases (loop : Loop) :
    (loop.rest=[] ∧ loop.next = .idle (some (.failedOver loop.migrated))) ∨
      ∃ s rest, loop.rest=s::rest ∧ (loop.next = .choosing (loop.pass rest) ∨
        ∃ node, loop.Turns s rest node ∧ loop.next = .waiting (loop.migration s rest node)) := by
  unfold Loop.next
  split
  · rename_i hrest
    exact .inl ⟨hrest,rfl⟩
  · rename_i s rest hrest
    refine .inr ⟨s,rest,hrest,?_⟩
    split
    · rename_i hstale
      split
      · exact .inl rfl
      · rename_i node hnode
        split
        · exact .inl rfl
        · rename_i hrefusal
          exact .inr ⟨node,⟨hstale.2,hnode,hrefusal⟩,rfl⟩
    · exact .inl rfl

theorem frame_next (loop : Loop) : loop.next.frame=none := by
  rcases next_cases loop with ⟨-,hnext⟩ | ⟨s,rest,-,hnext | ⟨node,-,hnext⟩⟩ <;>
    (rw [hnext]; rfl)

inductive Outside (w : Threads τ) (t : τ) : Event τ → Task → Task → Prop
  | refused (before : Option Outcome) (call : Call) (e : SessionError) :
    Outside w t (.call t call) (.idle before) (.idle (some (.returned (.error e))))
  | called (before : Option Outcome) (call : Call) : refusal call=none → locked call=true →
    Outside w t (.call t call) (.idle before) (.waiting ⟨call,.client⟩)
  | started (before : Option Outcome) (userId : String) (nodes : List String) :
    Outside w t (.failover t userId nodes) (.idle before) (.listing userId nodes)
  | listed (userId : String) (nodes : List String) (order : List Session) :
    Outside w t (.resume t order) (.listing userId nodes)
      (.cutting nodes (arrange order (w.manager.pg.listActiveByUser userId)))
  | cut (nodes : List String) (sessions order : List Session) :
    Outside w t (.resume t order) (.cutting nodes sessions)
      (.choosing ⟨nodes,w.now-staleAfter,sessions,0⟩)
  | chose (loop : Loop) (order : List Session) :
    Outside w t (.resume t order) (.choosing loop) loop.next

variable {w : Threads τ}

theorem Outside.frames {t : τ} {e : Event τ} {before after : Task}
    (h : Outside w t e before after) : before.frame=none ∧ after.frame=none := by
  cases h with
  | chose loop order => exact ⟨rfl,frame_next loop⟩
  | _ => exact ⟨rfl,rfl⟩

/- An event that resumes no thread in a call. -/
def Between (w : Threads τ) (e : Event τ) : Prop :=
  ∀ t order, e = .resume t order → (w.task t).frame=none

theorem between_resume {t : τ} {order : List Session} (h : (w.task t).frame=none) :
    Between w (.resume t order) := by
  rintro t' order' ⟨⟩
  exact h

/- An AutoFailover that is called on a thread with nothing else to do. -/
def Starts (w : Threads τ) (e : Event τ) : Prop :=
  ∃ t userId nodes before, e = .failover t userId nodes ∧ w.task t = .idle before

theorem not_starts_resume {t : τ} {order : List Session} : ¬ Starts w (.resume t order) := by
  rintro ⟨_,_,_,_,⟨⟩,_⟩

section
variable [DecidableEq τ]

inductive Move (w : Threads τ) : Event τ → Threads τ → Prop
  | stay (e : Event τ) : Between w e → ¬ Starts w e → Move w e w
  | tick (d : Duration) : Move w (.tick d) { w with now := w.now+d }
  | outside (e : Event τ) (t : τ) (after : Task) : Between w e → Outside w t e (w.task t) after →
    Move w e (w.become t after)
  | free (t : τ) (before : Option Outcome) (call : Call) : w.task t = .idle before →
    locked call=false → Move w (.call t call) (w.become t (.inside ⟨call,.client⟩ (.first call)))
  | enter (t : τ) (order : List Session) (frame : Frame) : w.task t = .waiting frame →
    w.holder (Threads.stripe frame)=none →
      Move w (.resume t order) ((w.acquire t frame).become t (.inside frame (.first frame.call)))
  | go (t : τ) (order : List Session) (frame : Frame) (stage stage' : Stage) (m : Manager) :
    w.task t = .inside frame stage → Does frame.call w.now w.manager stage m (.go stage') →
      Move w (.resume t order) ((w.withManager m).become t (.inside frame stage'))
  | done (t : τ) (order : List Session) (frame : Frame) (stage : Stage) (m : Manager)
      (result : Except SessionError Session) :
    w.task t = .inside frame stage → Does frame.call w.now w.manager stage m (.done result) →
      Move w (.resume t order) ((w.withManager m).become t (.leaving frame result))
  | leave (t : τ) (order : List Session) (frame : Frame) (result : Except SessionError Session) :
    w.task t = .leaving frame result →
      Move w (.resume t order) ((w.release frame).become t (frame.caller.resume result))

theorem move_resume (w : Threads τ) (t : τ) (order : List Session) :
    Move w (.resume t order) (w.resume t order) := by
  rw [Threads.resume]
  cases htask : w.task t with
  | idle outcome => exact .stay _ (between_resume (by rw [htask]; rfl)) not_starts_resume
  | waiting frame =>
    dsimp only
    cases hholder : w.holder (Threads.stripe frame) with
    | some t' => exact .stay _ (between_resume (by rw [htask]; rfl)) not_starts_resume
    | none => exact .enter t order frame htask hholder
  | inside frame stage =>
    dsimp only
    have hdoes := does_next frame.call w.now w.manager stage
    cases hnext : next frame.call w.now w.manager stage with
    | mk m result =>
      rw [hnext] at hdoes
      cases result with
      | go stage' => exact .go t order frame stage stage' m htask hdoes
      | done result => exact .done t order frame stage m result htask hdoes
  | leaving frame result => exact .leave t order frame result htask
  | listing userId nodes =>
    exact .outside _ t _ (between_resume (by rw [htask]; rfl)) (htask ▸ .listed userId nodes order)
  | cutting nodes sessions =>
    exact .outside _ t _ (between_resume (by rw [htask]; rfl)) (htask ▸ .cut nodes sessions order)
  | choosing loop =>
    exact .outside _ t _ (between_resume (by rw [htask]; rfl)) (htask ▸ .chose loop order)

theorem move_handle (w : Threads τ) (e : Event τ) : Move w e (w.handle e) := by
  cases e with
  | call t call =>
    have hbetween : Between w (.call t call) := by rintro _ _ ⟨⟩
    rw [Threads.handle]
    cases htask : w.task t with
    | idle before =>
      dsimp only
      cases hrefusal : refusal call with
      | some e => exact .outside _ t _ hbetween (htask ▸ .refused before call e)
      | none =>
        dsimp only
        rw [Threads.enter]
        split_ifs with hlocked
        · exact .outside _ t _ hbetween (htask ▸ .called before call hrefusal hlocked)
        · exact .free t before call htask (by simpa using hlocked)
    | _ =>
      refine .stay _ hbetween ?_
      rintro ⟨_,_,_,_,⟨⟩,_⟩
  | failover t userId nodes =>
    have hbetween : Between w (.failover t userId nodes) := by rintro _ _ ⟨⟩
    rw [Threads.handle]
    cases htask : w.task t with
    | idle before => exact .outside _ t _ hbetween (htask ▸ .started before userId nodes)
    | _ =>
      refine .stay _ hbetween ?_
      rintro ⟨_,_,_,before,⟨⟩,hidle⟩
      rw [htask] at hidle
      cases hidle
  | resume t order => exact move_resume w t order
  | tick d => exact .tick d
end

/- A thread in a locked call holds the stripe of its session. -/
def Locks (w : Threads τ) : Prop :=
  ∀ t frame, (w.task t).frame=some frame → locked frame.call=true →
    w.holder (Threads.stripe frame)=some t

section
variable {w w' : Threads τ}

theorem Locks.unique (h : Locks w) {t t' : τ} {frame frame' : Frame}
    (ht : (w.task t).frame=some frame) (ht' : (w.task t').frame=some frame')
    (hl : locked frame.call=true) (hl' : locked frame'.call=true)
    (hid : target frame.call=target frame'.call) : t=t' := by
  have hholder := h t frame ht hl
  rw [Threads.stripe,hid] at hholder
  exact Option.some.inj (hholder.symm.trans (h t' frame' ht' hl'))

@[simp] theorem task_release (w : Threads τ) (frame : Frame) : (w.release frame).task=w.task := by
  rw [Threads.release]
  split <;> rfl

@[simp] theorem now_release (w : Threads τ) (frame : Frame) : (w.release frame).now=w.now := by
  rw [Threads.release]
  split <;> rfl

@[simp] theorem manager_release (w : Threads τ) (frame : Frame) :
    (w.release frame).manager=w.manager := by
  rw [Threads.release]
  split <;> rfl

variable [DecidableEq τ]

theorem task_become (w : Threads τ) (t t' : τ) (task : Task) :
    (w.become t task).task t'=if t'=t then task else w.task t' :=
  Function.update_apply ..

theorem Locks.become (h : Locks w) (t : τ) {task : Task}
    (htask : ∀ frame, task.frame=some frame → locked frame.call=true →
      w.holder (Threads.stripe frame)=some t) : Locks (w.become t task) := by
  intro t' frame hframe hl
  rw [task_become] at hframe
  split_ifs at hframe with ht
  · rw [ht]
    exact htask frame hframe hl
  · exact h t' frame hframe hl

theorem Locks.move (h : Locks w) {e : Event τ} (hmove : Move w e w') : Locks w' := by
  cases hmove with
  | stay => exact h
  | tick d => exact h
  | outside e t after hbetween houtside =>
    refine h.become t fun frame hframe => ?_
    rw [houtside.frames.2] at hframe
    cases hframe
  | free t before call htask hfree =>
    refine h.become t fun frame hframe hl => ?_
    obtain rfl := Option.some.inj hframe
    rw [hfree] at hl
    cases hl
  | enter t order frame htask hfree =>
    -- No thread was in a call on this stripe.
    have hothers : Locks (w.acquire t frame) := by
      intro t' frame' hframe hl
      have hholder := h t' frame' hframe hl
      have hne : Threads.stripe frame'≠Threads.stripe frame := by
        intro hsame
        rw [hsame,hfree] at hholder
        cases hholder
      exact (Function.update_of_ne hne _ _).trans hholder
    refine hothers.become t fun frame' hframe hl => ?_
    obtain rfl := Option.some.inj hframe
    exact Function.update_self _ _ _
  | go t order frame stage stage' m htask hdoes =>
    refine Locks.become (w := w.withManager m) h t fun frame' hframe hl => ?_
    obtain rfl := Option.some.inj hframe
    exact h t frame (by rw [htask]; rfl) hl
  | done t order frame stage m result htask hdoes =>
    refine Locks.become (w := w.withManager m) h t fun frame' hframe hl => ?_
    obtain rfl := Option.some.inj hframe
    exact h t frame (by rw [htask]; rfl) hl
  | leave t order frame result htask =>
    have hmine : (w.task t).frame=some frame := by rw [htask]; rfl
    intro t' frame' hframe hl
    rw [task_become] at hframe
    split_ifs at hframe with ht
    · rw [frame_resume] at hframe
      cases hframe
    · have hholder := h t' frame' (by rwa [task_release] at hframe) hl
      rw [Threads.become,Threads.release]
      split_ifs with hlocked
      · -- The stripe that is given back is not that of another thread.
        have hne : Threads.stripe frame'≠Threads.stripe frame := by
          intro hsame
          rw [hsame,h t frame hmine hlocked] at hholder
          exact ht (Option.some.inj hholder).symm
        exact (Function.update_of_ne hne _ _).trans hholder
      · exact hholder
end

section
variable {call : Call} {now : Instant} {m m' : Manager} {stage stage' : Stage} {result : Next}
  {id : String} {s : Session}

/- The copy in hand is of the session that the call is about. -/
def Owns (call : Call) (stage : Stage) : Prop :=
  ∀ s, stage.copy=some s → s.id=target call ∧ target call ≠ ""

def Local (id : String) (m m' : Manager) : Prop :=
  ∀ k, k≠id → m'.entry k=m.entry k ∧ m'.pg.row k=m.pg.row k

theorem Local.refl (id : String) (m : Manager) : Local id m m := fun _ _ => ⟨rfl,rfl⟩

theorem local_set : Local id m (m.tell true fun r => r.set now id s) := by
  intro k hk
  rw [Manager.entry_tell_set,if_neg fun h => hk h.2,Manager.tell_pg]
  exact ⟨rfl,rfl⟩

theorem local_del : Local id m (m.tell true fun r => r.del id) := by
  intro k hk
  rw [Manager.entry_tell_del,if_neg fun h => hk h.2,Manager.tell_pg]
  exact ⟨rfl,rfl⟩

theorem local_users (request : Redis → Redis) (h : ∀ r, (request r).sessions=r.sessions)
    (ok : Bool) : Local id m (m.tell ok request) := by
  intro k _
  rw [Manager.entry_tell_of_sessions request h,Manager.tell_pg]
  exact ⟨rfl,rfl⟩

theorem local_withStore {pg : Store} (h : ∀ k, k≠id → pg.row k=m.pg.row k) :
    Local id m (m.withStore pg) :=
  fun k hk => ⟨rfl,h k hk⟩

/-- A request changes the keys and the row of its own session only. -/
theorem Does.local (hown : Owns call stage) (h : Does call now m stage m' result) :
    Local (target call) m m' := by
  cases h with
  | filled s => exact local_set
  | cached s => exact local_set
  | evicted s => exact local_del
  | added s => exact local_users (fun r => r.sAdd now s.userId (target call)) (fun _ => rfl) _
  | expired s => exact local_users (fun r => r.expire now s.userId) (fun _ => rfl) _
  | delisted s => exact local_users (fun r => r.sRem now s.userId (target call)) (fun _ => rfl) _
  | recorded s pg hpg => exact local_withStore fun k hk => by rw [Store.row_edit hpg,if_neg hk]
  | counted s pg hpg => exact local_withStore fun k hk => by rw [Store.row_edit hpg,if_neg hk]
  | saved s pg hpg =>
    exact local_withStore fun k hk => by rw [Store.row_saveSession hpg,(hown s rfl).1,if_neg hk]
  | deleted s pg hpg =>
    exact local_withStore fun k hk => by rw [Store.row_deleteSession hpg,if_neg hk]
  | _ => exact .refl _ _

variable {t : Session}

theorem edit_id (h : edit call now s = .ok (some t)) : t.id=s.id := by
  cases call with
  | create c =>
    obtain rfl := Option.some.inj (Except.ok.inj h)
    rfl
  | get id => cases h
  | heartbeat id up down =>
    rw [edit] at h
    cases hbeat : beat s now up down with
    | error e => rw [hbeat] at h; cases h
    | ok c =>
      rw [hbeat] at h
      obtain rfl := Option.some.inj (Except.ok.inj h)
      exact (beat_fields hbeat).1
  | migrate id node ip => exact (move_fields h).1
  | close id =>
    obtain rfl := Option.some.inj (Except.ok.inj h)
    rfl

@[simp] theorem copy_afterEdit (call : Call) (s : Session) :
    (Stage.afterEdit call s).copy=some s := by
  cases call <;> rfl

@[simp] theorem copy_afterSave (call : Call) (s : Session) :
    (Stage.afterSave call s).copy=some s := by
  cases call <;> rfl

theorem copy_afterCache (h : .go stage'=afterCache call s) : stage'.copy=some s := by
  cases call with
  | create c =>
    cases h
    rfl
  | _ => cases h

/-- The copy that a request goes on with is read from the cache or from the store, is the one
before, or is what the call has made of it. -/
theorem Does.copy (h : Does call now m stage m' (.go stage')) (ht : stage'.copy=some t) :
    m.cached .healthy now (target call)=some t ∨ m.pg.row (target call)=some t ∨
      (stage.copy=some t ∧ ∀ s, stage ≠ .working s) ∨
      ∃ s, stage = .working s ∧ edit call now s = .ok (some t) ∧ stage' = .afterEdit call t := by
  generalize hr : Next.go stage'=r at h
  cases h with
  | hit s hs =>
    cases hr
    exact .inl (hs.trans ht)
  | missed hs =>
    cases hr
    cases ht
  | loaded s hrow hredis =>
    cases hr
    exact .inr (.inl (hrow.trans ht))
  | uncached s hrow hredis =>
    cases hr
    exact .inr (.inl (hrow.trans ht))
  | edited s c hedit =>
    cases hr
    rw [copy_afterEdit,Option.some.injEq] at ht
    subst ht
    exact .inr (.inr (.inr ⟨s,rfl,hedit,rfl⟩))
  | saved s pg hpg =>
    cases hr
    rw [copy_afterSave] at ht
    exact .inr (.inr (.inl ⟨ht,nofun⟩))
  | cached s =>
    rw [copy_afterCache hr] at ht
    exact .inr (.inr (.inl ⟨ht,nofun⟩))
  | filled | recorded | uncounted | counted | added | evicted | delisted =>
    cases hr
    exact .inr (.inr (.inl ⟨ht,nofun⟩))
  | absent | refused | kept | unrecorded | unsaved | expired | undeleted | deleted => cases hr

/-- A call goes on with copies of its own session. -/
theorem Does.owns (hm : Keyed m) (hown : Owns call stage)
    (h : Does call now m stage m' (.go stage')) : Owns call stage' := by
  intro t ht
  rcases h.copy ht with hcached | hrow | ⟨hsame,-⟩ | ⟨s,rfl,hedit,-⟩
  · obtain ⟨expiry,hentry⟩ := entry_of_cached hcached
    exact hm _ t expiry hentry
  · exact m.pg.keyed _ t hrow
  · exact hown t hsame
  · rw [edit_id hedit]
    exact hown s rfl

/-- What a request leaves under the key of its session was there before or is written there. -/
theorem Does.entry (h : Does call now m stage m' result) {expiry : Instant}
    (ht : m'.entry (target call)=some (t, expiry)) :
    m.entry (target call)=some (t, expiry) ∨ stage = .filling t ∨ stage = .caching t := by
  cases h with
  | filled s =>
    rw [Manager.entry_tell_set,if_pos ⟨rfl,rfl⟩] at ht
    obtain ⟨r,-,heq⟩ := Option.map_eq_some_iff.mp ht
    exact .inr (.inl (congrArg Stage.filling (Prod.mk.inj heq).1))
  | cached s =>
    rw [Manager.entry_tell_set,if_pos ⟨rfl,rfl⟩] at ht
    obtain ⟨r,-,heq⟩ := Option.map_eq_some_iff.mp ht
    exact .inr (.inr (congrArg Stage.caching (Prod.mk.inj heq).1))
  | evicted s =>
    rw [Manager.entry_tell_del,if_pos ⟨rfl,rfl⟩] at ht
    cases ht
  | added s =>
    rw [Manager.entry_tell_of_sessions (fun r => r.sAdd now s.userId (target call)) fun _ => rfl] at ht
    exact .inl ht
  | expired s =>
    rw [Manager.entry_tell_of_sessions (fun r => r.expire now s.userId) fun _ => rfl] at ht
    exact .inl ht
  | delisted s =>
    rw [Manager.entry_tell_of_sessions (fun r => r.sRem now s.userId (target call)) fun _ => rfl] at ht
    exact .inl ht
  | _ => exact .inl ht

/- The requests that a call makes. -/
def Fits (call : Call) : Stage → Prop
  | .recording _ => ∃ id node ip, call = .migrate id node ip
  | .counting _ => ∃ id up down, call = .heartbeat id up down
  | .saving _ => locked call=true
  | .caching _ => locked call=true ∧ ∀ id, call ≠ .close id
  | .adding _ | .expiring _ => ∃ s, call = .create s
  | .evicting _ | .delisting _ | .deleting _ => ∃ id, call = .close id
  | .reading | .loading | .filling _ | .working _ => True

theorem fits_first (call : Call) : Fits call (.first call) := by
  cases call <;> trivial

theorem Does.fits (hfits : Fits call stage) (h : Does call now m stage m' (.go stage')) :
    Fits call stage' := by
  generalize hr : Next.go stage'=r at h
  cases h with
  | edited s t hedit =>
    cases hr
    cases call with
    | get id => cases hedit
    | migrate id node ip => exact ⟨id,node,ip,rfl⟩
    | _ => rfl
  | recorded s pg hpg =>
    cases hr
    obtain ⟨id,node,ip,rfl⟩ := hfits
    rfl
  | saved s pg hpg =>
    cases hr
    cases call with
    | get id => cases hfits
    | heartbeat id up down => exact ⟨id,up,down,rfl⟩
    | close id => exact ⟨id,rfl⟩
    | _ => exact ⟨rfl,nofun⟩
  | uncounted s e he =>
    cases hr
    obtain ⟨id,up,down,rfl⟩ := hfits
    exact ⟨rfl,nofun⟩
  | counted s pg hpg =>
    cases hr
    obtain ⟨id,up,down,rfl⟩ := hfits
    exact ⟨rfl,nofun⟩
  | cached s =>
    cases call with
    | create c =>
      cases hr
      exact ⟨c,rfl⟩
    | _ => cases hr
  | added | evicted | delisted =>
    cases hr
    exact hfits
  | hit | missed | loaded | uncached | filled =>
    cases hr
    trivial
  | absent | refused | kept | unrecorded | unsaved | expired | undeleted | deleted => cases hr

/-- What a request leaves as the row of its session has been there before, but for fields that
do not say whether it is active, or is saved there. -/
theorem Does.row (hown : Owns call stage) (h : Does call now m stage m' result)
    (ht : m'.pg.row (target call)=some t) :
    (∃ c, m.pg.row (target call)=some c ∧ c.active=t.active) ∨
      ∃ s, stage = .saving s ∧ s.active=t.active := by
  cases h with
  | recorded s pg hpg =>
    rw [Manager.withStore_pg,Store.row_edit hpg,if_pos rfl] at ht
    obtain ⟨c,hc,rfl⟩ := Option.map_eq_some_iff.mp ht
    exact .inl ⟨c,hc,rfl⟩
  | counted s pg hpg =>
    rw [Manager.withStore_pg,Store.row_edit hpg,if_pos rfl] at ht
    obtain ⟨c,hc,rfl⟩ := Option.map_eq_some_iff.mp ht
    exact .inl ⟨c,hc,rfl⟩
  | saved s pg hpg =>
    rw [Manager.withStore_pg,Store.row_saveSession hpg,if_pos (hown s rfl).1.symm] at ht
    obtain rfl := Option.some.inj ht
    exact .inr ⟨s,rfl,(m.pg.stored_active s).symm⟩
  | deleted s pg hpg =>
    rw [Manager.withStore_pg,Store.row_deleteSession hpg,if_pos rfl] at ht
    cases ht
  | filled | cached | added | expired | evicted | delisted =>
    rw [Manager.tell_pg] at ht
    exact .inl ⟨t,ht,rfl⟩
  | _ => exact .inl ⟨t,ht,rfl⟩

theorem Does.keyed (hm : Keyed m) (hown : Owns call stage) (h : Does call now m stage m' result) :
    Keyed m' := by
  intro k t expiry ht
  by_cases hk : k=target call
  · subst hk
    rcases h.entry ht with hold | rfl | rfl
    · exact hm _ t expiry hold
    · exact hown t rfl
    · exact hown t rfl
  · rw [(h.local hown k hk).1] at ht
    exact hm k t expiry ht
end

/- The cache, the calls that wait and the copies in hand are all about sessions with a name. -/
structure Keys (w : Threads τ) : Prop where
  cache : Keyed w.manager
  waiting : ∀ t frame, w.task t = .waiting frame → refusal frame.call=none
  copies : ∀ t frame stage, w.task t = .inside frame stage →
    Owns frame.call stage ∧ Fits frame.call stage

theorem turns_of_next {loop : Loop} {frame : Frame} (h : loop.next = .waiting frame) :
    ∃ s rest node, loop.rest=s::rest ∧ loop.Turns s rest node ∧
      frame=loop.migration s rest node := by
  rcases next_cases loop with ⟨-,hnext⟩ | ⟨s,rest,hrest,hnext | ⟨node,hturns,hnext⟩⟩
  · cases hnext.symm.trans h
  · cases hnext.symm.trans h
  · obtain rfl := Task.waiting.inj (hnext.symm.trans h)
    exact ⟨s,rest,node,hrest,hturns,rfl⟩

theorem Outside.refusal {t : τ} {e : Event τ} {before : Task} {frame : Frame}
    (h : Outside w t e before (.waiting frame)) : refusal frame.call=none := by
  generalize hafter : Task.waiting frame=after at h
  cases h with
  | called outcome call hrefusal hlocked =>
    cases hafter
    exact hrefusal
  | chose loop order =>
    obtain ⟨s,rest,node,-,hturns,rfl⟩ := turns_of_next hafter.symm
    exact hturns.2.2
  | refused | started | listed | cut => cases hafter

theorem Keys.start {m : Manager} (hm : Keyed m) (now : Instant) :
    Keys (Threads.start m now : Threads τ) :=
  ⟨hm,by rintro _ _ ⟨⟩,by rintro _ _ _ ⟨⟩⟩

theorem owns_first {call : Call} (h : refusal call=none) : Owns call (.first call) := by
  cases call with
  | create s =>
    intro t ht
    obtain rfl : s=t := Option.some.inj ht
    refine ⟨rfl,ne_empty_of_trim fun hid => ?_⟩
    rw [refusal,if_pos (.inl hid)] at h
    cases h
  | _ =>
    intro t ht
    cases ht

section
variable [DecidableEq τ] {w w' : Threads τ}

theorem Keys.become (h : Keys w) {m : Manager} (hm : Keyed m) (t : τ) {task : Task}
    (hwaiting : ∀ frame, task = .waiting frame → refusal frame.call=none)
    (hinside : ∀ frame stage, task = .inside frame stage →
      Owns frame.call stage ∧ Fits frame.call stage)
    (hw : w'.manager=m) (htasks : w'.task=Function.update w.task t task) : Keys w' := by
  refine ⟨hw ▸ hm,fun t' frame ht' => ?_,fun t' frame stage ht' => ?_⟩
  · rw [htasks,Function.update_apply] at ht'
    split_ifs at ht'
    · exact hwaiting frame ht'
    · exact h.waiting t' frame ht'
  · rw [htasks,Function.update_apply] at ht'
    split_ifs at ht'
    · exact hinside frame stage ht'
    · exact h.copies t' frame stage ht'

theorem resume_ne_waiting (caller : Caller) (result : Except SessionError Session) (frame : Frame) :
    caller.resume result ≠ .waiting frame := by
  intro h
  cases caller with
  | client => cases h
  | failover loop => cases result <;> cases h

theorem Keys.move (h : Keys w) {e : Event τ} (hmove : Move w e w') : Keys w' := by
  have hnone : ∀ {task : Task} {frame : Frame} {stage : Stage},
      task.frame=none → task ≠ .inside frame stage := by
    rintro _ frame stage hframe rfl
    cases hframe
  cases hmove with
  | stay => exact h
  | tick d => exact ⟨h.cache,h.waiting,h.copies⟩
  | outside e t after hbetween houtside =>
    refine h.become h.cache t (fun frame hafter => ?_) (fun frame stage hafter => ?_) rfl rfl
    · subst hafter
      exact houtside.refusal
    · exact absurd hafter (hnone houtside.frames.2)
  | free t before call htask hfree =>
    refine h.become h.cache t (by rintro _ ⟨⟩) (fun frame stage hafter => ?_) rfl rfl
    cases hafter
    cases call with
    | get id => exact ⟨owns_first rfl,trivial⟩
    | _ => cases hfree
  | enter t order frame htask hholder =>
    refine h.become h.cache t (by rintro _ ⟨⟩) (fun frame' stage hafter => ?_) rfl rfl
    cases hafter
    exact ⟨owns_first (h.waiting t frame htask),fits_first _⟩
  | go t order frame stage stage' m htask hdoes =>
    obtain ⟨hown,hfits⟩ := h.copies t frame stage htask
    refine h.become (hdoes.keyed h.cache hown) t (by rintro _ ⟨⟩) (fun frame' stage₁ hafter => ?_)
      rfl rfl
    cases hafter
    exact ⟨hdoes.owns h.cache hown,hdoes.fits hfits⟩
  | done t order frame stage m result htask hdoes =>
    have hown := (h.copies t frame stage htask).1
    exact h.become (hdoes.keyed h.cache hown) t (by rintro _ ⟨⟩) (by rintro _ _ ⟨⟩)
      rfl rfl
  | leave t order frame result htask =>
    refine h.become h.cache t (fun frame' hafter => ?_) (fun frame' stage hafter => ?_)
      (manager_release w frame) (by rw [Threads.become,task_release])
    · exact absurd hafter (resume_ne_waiting _ _ _)
    · exact absurd hafter (hnone (frame_resume _ _))
end

/- Parts of schedules: some steps of a thread, and a call with its first steps. -/
def running (t : τ) (steps : Nat) : List (Event τ) := List.replicate steps (.resume t [])

def calling (t : τ) (call : Call) (steps : Nat) : List (Event τ) := .call t call::running t steps

end AetherX.SessionThreads
