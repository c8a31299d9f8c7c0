import AetherX.SessionThreads

/-! When sessions were last seen. As long as the clients only send heartbeats, migrations and
closes, the cache agrees with the store wherever no lock is held, and the store never sets back
the time of a heartbeat that has returned. -/
namespace AetherX.SessionSightings
open Supervisor (Instant)
open SessionStore SessionManager SessionThreads
open SessionCache (Keyed entry_of_cached)
variable {τ : Type*}

/- A heartbeat that has returned nil, with the time that it has stamped its session with. -/
structure Beat where
  id : String
  stamp : Instant
  doneAt : Instant

def returning (now : Instant) : Task → List Beat
  | .leaving ⟨.heartbeat id _ _,_⟩ (.ok s) => [⟨id,s.lastSeenAt,now⟩]
  | _ => []

def returned (w : Threads τ) : Event τ → List Beat
  | .resume t _ => returning w.now (w.task t)
  | _ => []

/- Sessions are seen, moved and closed, but no client creates or reads one. -/
def Beside : Event τ → Prop
  | .call _ (.create _) => False
  | .call _ (.get _) => False
  | _ => True

def Agrees (m : Manager) (id : String) : Prop :=
  ∀ s expiry, m.entry id=some (s, expiry) → m.pg.row id=some s

/- The store has kept the stamp of a heartbeat. -/
structure Seen (m : Manager) (now : Instant) (b : Beat) : Prop where
  seen : ∀ s, m.pg.row b.id=some s → b.stamp ≤ s.lastSeenAt
  past : b.stamp ≤ now

theorem keyed_of_agrees {m : Manager} (h : ∀ id, Agrees m id) : Keyed m :=
  fun id s expiry hs => m.pg.keyed id s (h id s expiry hs)

section
variable {now now' : Instant} {m m' : Manager} {beats beats' : List Beat} {call : Call}
  {stage stage' : Stage} {s : Session} {id : String}

def Bounded (beats : List Beat) (id : String) (seen : Instant) : Prop :=
  ∀ b∈beats, b.id=id → b.stamp ≤ seen

/- What the holder of a session's lock knows of it, request by request. -/
def Knows (now : Instant) (m : Manager) (beats : List Beat) (call : Call) : Stage → Prop
  | .reading | .loading => Agrees m (target call)
  | .filling s | .working s => Agrees m (target call) ∧ m.pg.row (target call)=some s
  | .recording s => ∃ old, m.pg.row (target call)=some old ∧ old.nodeId≠s.nodeId ∧
    s.startedAt = old.startedAt ∧ Bounded beats (target call) s.lastSeenAt ∧ s.lastSeenAt ≤ now
  | .saving s => ∃ old, m.pg.row (target call)=some old ∧ s.startedAt = old.startedAt ∧
    Bounded beats (target call) s.lastSeenAt ∧
    ((∀ id, call ≠ .close id) → s.lastSeenAt ≤ now) ∧
    ∀ id node ip, call = .migrate id node ip → old.nodeId=s.nodeId
  | .counting s | .caching s => m.pg.row (target call)=some s ∧ s.lastSeenAt ≤ now
  | .delisting _ | .deleting _ => m.entry (target call)=none
  | .evicting _ | .adding _ | .expiring _ => True

theorem Bounded.mono (h : Bounded beats id s.lastSeenAt)
    (hbeats : ∀ b∈beats', b.id=id → b∈beats) : Bounded beats' id s.lastSeenAt :=
  fun b hb hid => h b (hbeats b hb hid) hid

/-- What one thread knows is no concern of a step on another session. -/
theorem Knows.mono (h : Knows now m beats call stage)
    (hentry : m'.entry (target call)=m.entry (target call))
    (hrow : m'.pg.row (target call)=m.pg.row (target call)) (hnow : now ≤ now')
    (hbeats : ∀ b∈beats', b.id=target call → b∈beats) :
    Knows now' m' beats' call stage := by
  cases stage with
  | reading | loading =>
    rw [Knows,Agrees,hentry,hrow]
    exact h
  | filling s | working s =>
    rw [Knows,Agrees,hentry,hrow]
    exact h
  | recording s =>
    obtain ⟨old,hold,hnode,hstarted,hbound,hseen⟩ := h
    exact ⟨old,hrow.trans hold,hnode,hstarted,hbound.mono hbeats,hseen.trans hnow⟩
  | saving s =>
    obtain ⟨old,hold,hstarted,hbound,hseen,hnode⟩ := h
    exact ⟨old,hrow.trans hold,hstarted,hbound.mono hbeats,fun hc => (hseen hc).trans hnow,hnode⟩
  | counting s | caching s => exact ⟨hrow.trans h.1,h.2.trans hnow⟩
  | delisting s | deleting s => exact hentry.trans h
  | evicting s | adding s | expiring s => trivial

theorem stored_of_row {pg : Store} {old : Session} (hrow : pg.row s.id=some old)
    (h : s.startedAt = old.startedAt) : pg.stored s=s := by
  rw [Store.stored,hrow]
  cases pg.backend with
  | memory => rfl
  | postgres =>
    dsimp only
    rw [← h]

theorem agrees_set (h : m.pg.row id=some s) :
    Agrees (m.tell true fun r => r.set now id s) id := by
  intro t expiry ht
  rw [Manager.entry_tell_set,if_pos ⟨rfl,rfl⟩] at ht
  obtain ⟨r,-,heq⟩ := Option.map_eq_some_iff.mp ht
  rw [Manager.tell_pg,h,(Prod.mk.inj heq).1]

theorem move_changes {t : Session} {node ip : String} (h : move s now node ip = .ok (some t)) :
    s.active=true ∧ s.nodeId≠t.nodeId ∧ t.startedAt=s.startedAt ∧ t.lastSeenAt=now := by
  rw [move] at h
  split_ifs at h with hactive hmigratable hnode <;> cases h <;>
    exact ⟨by simpa using hactive,hnode,rfl,rfl⟩

theorem knows_edited (hread : m.pg.row (target call)=some s) {t : Session}
    (hedit : edit call now s = .ok (some t)) (hcreate : ∀ c, call ≠ .create c)
    (hbeats : ∀ b∈beats, Seen m now b) : Knows now m beats call (.afterEdit call t) := by
  have hseen : Bounded beats (target call) s.lastSeenAt := by
    intro b hb hid
    exact (hbeats b hb).seen s (by rw [hid]; exact hread)
  have hpast : Bounded beats (target call) now := fun b hb _ => (hbeats b hb).past
  cases call with
  | create c => exact absurd rfl (hcreate c)
  | get id => cases hedit
  | heartbeat id up down =>
    rw [edit,beat] at hedit
    split_ifs at hedit
    · cases hedit
    · obtain rfl := Option.some.inj (Except.ok.inj hedit)
      exact ⟨s,hread,rfl,hpast,fun _ => le_rfl,by rintro _ _ _ ⟨⟩⟩
  | migrate id node ip =>
    obtain ⟨-,hnode,hstarted,hnow⟩ := move_changes hedit
    refine ⟨s,hread,hnode,hstarted,?_,hnow.le⟩
    rw [hnow]
    exact hpast
  | close id =>
    obtain rfl := Option.some.inj (Except.ok.inj hedit)
    exact ⟨s,hread,rfl,hseen,fun hc => absurd rfl (hc id),by rintro _ _ _ ⟨⟩⟩

/-- The holder of a session's lock knows after a request what it has to know for the next. -/
theorem Knows.go (h : Knows now m beats call stage) (hown : Owns call stage)
    (hcreate : ∀ c, call ≠ .create c) (hbeats : ∀ b∈beats, Seen m now b)
    (hdoes : Does call now m stage m' (.go stage')) : Knows now m' beats call stage' := by
  generalize hr : Next.go stage'=r at hdoes
  cases hdoes with
  | hit s hs =>
    cases hr
    obtain ⟨expiry,hentry⟩ := entry_of_cached hs
    exact ⟨h,h s expiry hentry⟩
  | missed hs =>
    cases hr
    exact h
  | loaded s hrow hredis =>
    cases hr
    exact ⟨h,hrow⟩
  | uncached s hrow hredis =>
    cases hr
    exact ⟨h,hrow⟩
  | filled s =>
    cases hr
    exact ⟨agrees_set h.2,by rw [Manager.tell_pg]; exact h.2⟩
  | edited s t hedit =>
    cases hr
    exact knows_edited h.2 hedit hcreate hbeats
  | recorded s pg hpg =>
    cases hr
    obtain ⟨old,hold,hnode,hstarted,hbound,hnow⟩ := h
    have hrow : pg.row (target call) =
        some { old with nodeId := s.nodeId, migratedCount := old.migratedCount+1 } := by
      rw [Store.row_edit hpg,if_pos rfl,hold,Option.map_some]
    exact ⟨_,hrow,hstarted,hbound,fun _ => hnow,fun _ _ _ _ => rfl⟩
  | saved s pg hpg =>
    cases hr
    obtain ⟨old,hold,hstarted,hbound,hnow,hnode⟩ := h
    have hid := (hown s rfl).1
    have hrow : pg.row (target call)=some s := by
      rw [Store.row_saveSession hpg,if_pos hid.symm,
        stored_of_row (by rw [hid]; exact hold) hstarted]
    cases call with
    | close id => trivial
    | create c => exact absurd rfl (hcreate c)
    | _ => exact ⟨hrow,hnow nofun⟩
  | uncounted s e he =>
    cases hr
    exact h
  | counted s pg hpg =>
    cases hr
    refine ⟨?_,h.2⟩
    rw [Manager.withStore_pg,Store.row_edit hpg,if_pos rfl,h.1]
    rfl
  | cached s =>
    cases call with
    | create c => exact absurd rfl (hcreate c)
    | _ => cases hr
  | added s =>
    cases hr
    trivial
  | evicted s =>
    cases hr
    rw [Knows,Manager.entry_tell_del,if_pos ⟨rfl,rfl⟩]
  | delisted s =>
    cases hr
    rw [Knows,Manager.entry_tell_of_sessions (fun r => r.sRem now s.userId (target call))
      fun _ => rfl]
    exact h
  | absent | refused | kept | unrecorded | unsaved | expired | undeleted | deleted => cases hr

def Left (now : Instant) (m : Manager) (call : Call) (result : Except SessionError Session) : Prop :=
  Agrees m (target call) ∧ ∀ id up down s, call = .heartbeat id up down →
    result = .ok s → m.pg.row id=some s ∧ s.lastSeenAt ≤ now

theorem agrees_of_none (h : m.entry id=none) : Agrees m id := by
  intro s expiry hs
  rw [h] at hs
  cases hs

theorem left_error {e : SessionError} (h : Agrees m (target call)) :
    Left now m call (.error e) :=
  ⟨h,by rintro _ _ _ _ _ ⟨⟩⟩

variable {result : Except SessionError Session}

theorem Knows.done (h : Knows now m beats call stage) (hown : Owns call stage)
    (hfits : Fits call stage) (hcreate : ∀ c, call ≠ .create c)
    (hdoes : Does call now m stage m' (.done result)) : Left now m' call result := by
  generalize hr : Next.done result=r at hdoes
  cases hdoes with
  | absent e he =>
    cases hr
    exact left_error h
  | refused s e he =>
    cases hr
    exact left_error h.1
  | kept s hedit =>
    cases hr
    refine ⟨h.1,fun id up down t hcall _ => ?_⟩
    rw [hcall,edit] at hedit
    cases hbeat : beat s now up down <;> (rw [hbeat] at hedit; cases hedit)
  | unrecorded s e he =>
    obtain ⟨old,hold,-⟩ := h
    exact absurd he (Store.recordMigration_ne_error hold _ e)
  | unsaved s e he =>
    obtain ⟨hid,hne⟩ := hown s rfl
    exact absurd he (Store.saveSession_ne_error (hid ▸ hne) e)
  | cached s =>
    obtain ⟨hrow,hnow⟩ := h
    refine ⟨agrees_set hrow,fun id up down t hcall ht => ?_⟩
    rw [hcall] at hr hrow
    subst ht
    cases hr
    rw [Manager.tell_pg]
    exact ⟨hrow,hnow⟩
  | expired s =>
    obtain ⟨c,hc⟩ := hfits
    exact absurd hc (hcreate c)
  | undeleted s e he =>
    cases hr
    exact left_error (agrees_of_none h)
  | deleted s pg hpg =>
    obtain ⟨id,hclose⟩ := hfits
    refine ⟨agrees_of_none h,fun id' up down t hcall _ => ?_⟩
    rw [hclose] at hcall
    cases hcall
  | hit | missed | loaded | uncached | filled | edited | recorded | saved | uncounted | counted
  | added | evicted | delisted => cases hr

/-- No request sets back the time at which its session has been seen last. -/
theorem Knows.seen (h : Knows now m beats call stage) (hown : Owns call stage)
    {r : Next} (hdoes : Does call now m stage m' r) {b : Beat} (hb : b∈beats)
    (hseen : Seen m now b) : Seen m' now b := by
  refine ⟨fun t ht => ?_,hseen.past⟩
  have hold := hseen.seen
  by_cases hid : b.id=target call
  · rw [hid] at hold ht
    cases hdoes with
    | recorded s pg hpg =>
      rw [Manager.withStore_pg,Store.row_edit hpg,if_pos rfl] at ht
      obtain ⟨c,hc,rfl⟩ := Option.map_eq_some_iff.mp ht
      exact hold c hc
    | counted s pg hpg =>
      rw [Manager.withStore_pg,Store.row_edit hpg,if_pos rfl] at ht
      obtain ⟨c,hc,rfl⟩ := Option.map_eq_some_iff.mp ht
      exact hold c hc
    | saved s pg hpg =>
      obtain ⟨old,hrow,hstarted,hbound,-⟩ := h
      have hs := (hown s rfl).1
      rw [Manager.withStore_pg,Store.row_saveSession hpg,if_pos hs.symm,
        stored_of_row (by rw [hs]; exact hrow) hstarted] at ht
      obtain rfl := Option.some.inj ht
      exact hbound b hb hid
    | deleted s pg hpg =>
      rw [Manager.withStore_pg,Store.row_deleteSession hpg,if_pos rfl] at ht
      cases ht
    | filled | cached | added | expired | evicted | delisted =>
      rw [Manager.tell_pg] at ht
      exact hold t ht
    | _ => exact hold t ht
  · rw [(hdoes.local hown _ hid).2] at ht
    exact hold t ht

theorem Left.mono (h : Left now m call result)
    (hentry : m'.entry (target call)=m.entry (target call))
    (hrow : m'.pg.row (target call)=m.pg.row (target call)) (hnow : now ≤ now') :
    Left now' m' call result := by
  refine ⟨?_,fun id up down s hcall hs => ?_⟩
  · rw [Agrees,hentry,hrow]
    exact h.1
  · obtain ⟨hold,hseen⟩ := h.2 id up down s hcall hs
    rw [hcall] at hrow
    exact ⟨hrow.trans hold,hseen.trans hnow⟩

theorem mem_returning {frame : Frame} {b : Beat} (hb : b∈returning now (.leaving frame result)) : ∃ up down s,
      frame.call = .heartbeat b.id up down ∧ result = .ok s ∧ b.stamp=s.lastSeenAt ∧ b.doneAt=now := by
  obtain ⟨call,caller⟩ := frame
  cases call with
  | heartbeat id up down =>
    cases result with
    | error e => cases hb
    | ok s =>
      obtain rfl := List.mem_singleton.mp hb
      exact ⟨up,down,s,rfl,rfl,rfl,rfl⟩
  | _ => cases hb

/-- A heartbeat that returns has left its stamp in the store. -/
theorem Left.seen {frame : Frame} (h : Left now m frame.call result) {b : Beat}
    (hb : b∈returning now (.leaving frame result)) : b.id=target frame.call ∧ Seen m now b := by
  obtain ⟨up,down,s,hcall,rfl,hstamp,-⟩ := mem_returning hb
  obtain ⟨hrow,hseen⟩ := h.2 b.id up down s hcall rfl
  refine ⟨by rw [hcall]; rfl,fun c hc => ?_,by rw [hstamp]; exact hseen⟩
  rw [hstamp,Option.some.inj (hrow.symm.trans hc)]
end

/- The calls that take the lock of a session that is there. -/
def Plain (call : Call) : Prop := locked call=true ∧ ∀ c, call ≠ .create c

structure View (w : Threads τ) (beats : List Beat) : Prop where
  locks : Locks w
  keys : Keys w
  waiting : ∀ t frame, w.task t = .waiting frame → Plain frame.call
  plain : ∀ t frame, (w.task t).frame=some frame → Plain frame.call
  free : ∀ id, (∀ t frame, (w.task t).frame=some frame → target frame.call≠id) →
    Agrees w.manager id
  knows : ∀ t frame stage, w.task t = .inside frame stage →
    Knows w.now w.manager beats frame.call stage
  left : ∀ t frame result, w.task t = .leaving frame result →
    Left w.now w.manager frame.call result
  seen : ∀ b∈beats, Seen w.manager w.now b

theorem View.start {m : Manager} (hm : ∀ id, Agrees m id) {now : Instant} {beats : List Beat}
    (hbeats : ∀ b∈beats, Seen m now b) : View (.start m now : Threads τ) beats where
  locks := by rintro _ _ ⟨⟩
  keys := .start (keyed_of_agrees hm) now
  waiting := by rintro _ _ ⟨⟩
  plain := by rintro _ _ ⟨⟩
  free id _ := hm id
  knows := by rintro _ _ _ ⟨⟩
  left := by rintro _ _ _ ⟨⟩
  seen := hbeats

section
variable {w w' : Threads τ} {beats : List Beat} {e : Event τ} {t t' : τ} {frame frame' : Frame}
  {stage : Stage} {m : Manager} {after : Task} {order : List Session}

theorem View.apart (hv : View w beats) (hframe : (w.task t).frame=some frame)
    (hframe' : (w.task t').frame=some frame') (hne : t'≠t) :
    target frame'.call≠target frame.call := by
  intro hid
  exact hne (hv.locks.unique hframe' hframe (hv.plain t' frame' hframe').1
    (hv.plain t frame hframe).1 hid)

/-- A request leaves the sessions of all other threads as they are. -/
theorem View.others (hv : View w beats) (htask : w.task t = .inside frame stage) {r : Next}
    (hdoes : Does frame.call w.now w.manager stage m r) (hne : t'≠t)
    (hframe' : (w.task t').frame=some frame') :
    m.entry (target frame'.call)=w.manager.entry (target frame'.call) ∧
      m.pg.row (target frame'.call)=w.manager.pg.row (target frame'.call) := by
  refine hdoes.local (hv.keys.copies t frame stage htask).1 _ (hv.apart ?_ hframe' hne)
  rw [htask]
  rfl

theorem returned_of_between (h : Between w e) : returned w e=[] := by
  cases e with
  | resume t order =>
    have hframe := h t order rfl
    rw [returned]
    cases htask : w.task t with
    | leaving frame result =>
      rw [htask] at hframe
      cases hframe
    | _ => rfl
  | _ => rfl

/- What a thread that was in no call may have come to. -/
structure Comes (m : Manager) (task : Task) : Prop where
  waiting : ∀ frame, task = .waiting frame → Plain frame.call
  reading : ∀ frame, task.frame=some frame → task = .inside frame .reading ∧ Plain frame.call ∧
    Agrees m (target frame.call)

theorem comes_of_frame (hframe : after.frame=none)
    (hwaiting : ∀ frame, after = .waiting frame → Plain frame.call) : Comes m after := by
  refine ⟨hwaiting,fun frame h => ?_⟩
  rw [hframe] at h
  cases h

/-- A step that sends no request and returns from no call. -/
theorem View.still (hv : View w beats) (hlocks : Locks w') (hkeys : Keys w')
    (hm : w'.manager=w.manager) (hnow : w.now ≤ w'.now)
    (htasks : ∀ t, w'.task t=w.task t ∨
      (w.task t).frame=none ∧ Comes w.manager (w'.task t)) : View w' beats where
  locks := hlocks
  keys := hkeys
  waiting t frame ht := by
    rcases htasks t with hsame | ⟨-,hcomes⟩
    · exact hv.waiting t frame (hsame ▸ ht)
    · exact hcomes.waiting frame ht
  plain t frame ht := by
    rcases htasks t with hsame | ⟨-,hcomes⟩
    · exact hv.plain t frame (hsame ▸ ht)
    · exact (hcomes.reading frame ht).2.1
  free id hid := by
    rw [hm]
    refine hv.free id fun t frame ht => ?_
    rcases htasks t with hsame | ⟨hframe,-⟩
    · exact hid t frame (by rw [hsame]; exact ht)
    · rw [hframe] at ht
      cases ht
  knows t frame stage ht := by
    rw [hm]
    rcases htasks t with hsame | ⟨-,hcomes⟩
    · exact (hv.knows t frame stage (hsame ▸ ht)).mono rfl rfl hnow fun b hb _ => hb
    · obtain ⟨hreading,-,hagrees⟩ := hcomes.reading frame (by rw [ht]; rfl)
      rw [ht] at hreading
      cases hreading
      exact hagrees
  left t frame result ht := by
    rw [hm]
    rcases htasks t with hsame | ⟨-,hcomes⟩
    · exact (hv.left t frame result (hsame ▸ ht)).mono rfl rfl hnow
    · obtain ⟨hreading,-⟩ := hcomes.reading frame (by rw [ht]; rfl)
      rw [ht] at hreading
      cases hreading
  seen b hb := by
    rw [hm]
    exact ⟨(hv.seen b hb).seen,(hv.seen b hb).past.trans hnow⟩

/-- Whoever comes to a session that nobody has locked finds the cache in agreement. -/
theorem View.comes_first (hv : View w beats) (hplain : Plain frame.call)
    (hfree : w.holder (Threads.stripe frame)=none) :
    Comes w.manager (.inside frame (.first frame.call)) := by
  have hagrees : Agrees w.manager (target frame.call) := by
    refine hv.free _ fun t' frame' ht' hid => ?_
    have hholder := hv.locks t' frame' ht' (hv.plain t' frame' ht').1
    rw [Threads.stripe,hid,← Threads.stripe,hfree] at hholder
    cases hholder
  refine ⟨by rintro _ ⟨⟩,fun frame' hframe => ?_⟩
  obtain rfl := Option.some.inj hframe
  refine ⟨?_,hplain,hagrees⟩
  obtain ⟨call,caller⟩ := frame
  cases call with
  | create c => exact absurd rfl (hplain.2 c)
  | _ => rfl

theorem plain_of_outside {before : Task} (hbeside : Beside e)
    (h : Outside w t e before (.waiting frame)) : Plain frame.call := by
  generalize hafter : Task.waiting frame=after at h
  cases h with
  | called outcome call hrefusal hlocked =>
    cases hafter
    refine ⟨hlocked,?_⟩
    rintro c rfl
    exact hbeside
  | chose loop order =>
    obtain ⟨s,rest,node,-,-,rfl⟩ := turns_of_next hafter.symm
    exact ⟨rfl,by rintro _ ⟨⟩⟩
  | refused | started | listed | cut => cases hafter

variable [DecidableEq τ]

theorem View.request (hv : View w beats) (htask : w.task t = .inside frame stage) {r : Next}
    (hdoes : Does frame.call w.now w.manager stage m r)
    (hmove : Move w (.resume t order) ((w.withManager m).become t after))
    (hafter : after.frame=some frame)
    (hknows : ∀ stage', after = .inside frame stage' → Knows w.now m beats frame.call stage')
    (hleft : ∀ result, after = .leaving frame result → Left w.now m frame.call result) :
    View ((w.withManager m).become t after) beats := by
  have hmine : (w.task t).frame=some frame := by rw [htask]; rfl
  have hown := (hv.keys.copies t frame stage htask).1
  have hframes : ∀ t' frame', (((w.withManager m).become t after).task t').frame=some frame' ↔
      (w.task t').frame=some frame' := by
    intro t' frame'
    rw [task_become]
    split_ifs with ht
    · rw [ht,hmine,hafter]
    · rfl
  have hself : ∀ {task : Task} {frame' : Frame}, after=task → task.frame=some frame' →
      frame'=frame := by
    rintro _ frame' rfl hframe'
    exact Option.some.inj (hframe'.symm.trans hafter)
  exact {
    locks := hv.locks.move hmove
    keys := hv.keys.move hmove
    waiting := by
      intro t' frame' ht'
      rw [task_become] at ht'
      split_ifs at ht' with ht
      · rw [ht'] at hafter
        cases hafter
      · exact hv.waiting t' frame' ht'
    plain := fun t' frame' ht' => hv.plain t' frame' ((hframes t' frame').mp ht')
    free := by
      intro id hid
      obtain ⟨hentry,hrow⟩ := hdoes.local hown id (hid t frame ((hframes t frame).mpr hmine)).symm
      have hagrees := hv.free id fun t' frame' ht' => hid t' frame' ((hframes t' frame').mpr ht')
      exact fun s expiry hs => hrow.trans (hagrees s expiry (hentry.symm.trans hs))
    knows := by
      intro t' frame' stage' ht'
      rw [task_become] at ht'
      split_ifs at ht' with ht
      · obtain rfl := hself ht' rfl
        exact hknows stage' ht'
      · change w.task t'=_ at ht'
        obtain ⟨hentry,hrow⟩ := hv.others htask hdoes ht (show (w.task t').frame=_ by rw [ht']; rfl)
        exact (hv.knows t' frame' stage' ht').mono hentry hrow le_rfl fun b hb _ => hb
    left := by
      intro t' frame' result ht'
      rw [task_become] at ht'
      split_ifs at ht' with ht
      · obtain rfl := hself ht' rfl
        exact hleft result ht'
      · change w.task t'=_ at ht'
        obtain ⟨hentry,hrow⟩ := hv.others htask hdoes ht (show (w.task t').frame=_ by rw [ht']; rfl)
        exact (hv.left t' frame' result ht').mono hentry hrow le_rfl
    seen := fun b hb => (hv.knows t frame stage htask).seen hown hdoes hb (hv.seen b hb) }

theorem View.leave (hv : View w beats) {result : Except SessionError Session}
    (htask : w.task t = .leaving frame result)
    (hmove : Move w (.resume t order) ((w.release frame).become t (frame.caller.resume result))) :
    View ((w.release frame).become t (frame.caller.resume result))
      (returning w.now (.leaving frame result)++beats) := by
  have hmine : (w.task t).frame=some frame := by rw [htask]; rfl
  have hleft := hv.left t frame result htask
  have hm : ((w.release frame).become t (frame.caller.resume result)).manager=w.manager :=
    manager_release w frame
  have hnow : ((w.release frame).become t (frame.caller.resume result)).now=w.now :=
    now_release w frame
  have htasks : ∀ t', ((w.release frame).become t (frame.caller.resume result)).task t' =
      if t'=t then frame.caller.resume result else w.task t' := by
    intro t'
    rw [task_become,task_release]
  have hnone : ∀ {task : Task}, frame.caller.resume result=task → task.frame=none := by
    rintro _ rfl
    exact frame_resume _ _
  exact {
    locks := hv.locks.move hmove
    keys := hv.keys.move hmove
    waiting := by
      intro t' frame' ht'
      rw [htasks] at ht'
      split_ifs at ht' with ht
      · exact absurd ht' (resume_ne_waiting _ _ _)
      · exact hv.waiting t' frame' ht'
    plain := by
      intro t' frame' ht'
      rw [htasks] at ht'
      split_ifs at ht' with ht
      · rw [frame_resume] at ht'
        cases ht'
      · exact hv.plain t' frame' ht'
    free := by
      intro id hid
      rw [hm]
      by_cases hmy : target frame.call=id
      · rw [← hmy]
        exact hleft.1
      · refine hv.free id fun t' frame' ht' => ?_
        by_cases ht : t'=t
        · rw [ht,hmine] at ht'
          rw [← Option.some.inj ht']
          exact hmy
        · refine hid t' frame' ?_
          rw [htasks,if_neg ht]
          exact ht'
    knows := by
      intro t' frame' stage' ht'
      rw [htasks] at ht'
      split_ifs at ht' with ht
      · cases hnone ht'
      · -- The heartbeat that returns is one of another session.
        have hapart := hv.apart hmine (show (w.task t').frame=some frame' by rw [ht']; rfl) ht
        rw [hm,hnow]
        refine (hv.knows t' frame' stage' ht').mono rfl rfl le_rfl fun b hb hid => ?_
        rcases List.mem_append.mp hb with hnew | hold
        · exact absurd (hid.symm.trans (hleft.seen hnew).1) hapart
        · exact hold
    left := by
      intro t' frame' result' ht'
      rw [htasks] at ht'
      split_ifs at ht' with ht
      · cases hnone ht'
      · rw [hm,hnow]
        exact hv.left t' frame' result' ht'
    seen := by
      intro b hb
      rw [hm,hnow]
      rcases List.mem_append.mp hb with hnew | hold
      · exact (hleft.seen hnew).2
      · exact hv.seen b hold }

theorem View.outside (hv : View w beats) (hbeside : Beside e)
    (houtside : Outside w t e (w.task t) after) (hmove : Move w e (w.become t after)) :
    View (w.become t after) beats := by
  refine hv.still (hv.locks.move hmove) (hv.keys.move hmove) rfl le_rfl fun t' => ?_
  rw [task_become]
  split_ifs with ht
  · refine .inr ⟨by rw [ht]; exact houtside.frames.1,comes_of_frame houtside.frames.2 ?_⟩
    rintro frame rfl
    exact plain_of_outside hbeside houtside
  · exact .inl rfl

theorem View.move (hv : View w beats) (hbeside : Beside e) (hmove : Move w e w') :
    View w' (returned w e++beats) := by
  have hlocks := hv.locks.move hmove
  have hkeys := hv.keys.move hmove
  cases hmove with
  | stay e hbetween hstarts =>
    rw [returned_of_between hbetween]
    exact hv
  | tick d => exact hv.still hlocks hkeys rfl (Nat.le_add_right _ _) fun t => .inl rfl
  | outside e t after hbetween houtside =>
    rw [returned_of_between hbetween]
    exact hv.outside hbeside houtside (.outside e t after hbetween houtside)
  | free t before call htask hfree =>
    cases call with
    | get id => exact hbeside.elim
    | _ => cases hfree
  | enter t order frame htask hfree =>
    rw [returned_of_between (between_resume (by rw [htask]; rfl))]
    refine hv.still hlocks hkeys rfl le_rfl fun t' => ?_
    rw [task_become]
    split_ifs with ht
    · exact .inr ⟨by rw [ht,htask]; rfl,hv.comes_first (hv.waiting t frame htask) hfree⟩
    · exact .inl rfl
  | go t order frame stage stage' m htask hdoes =>
    have hcreate := (hv.plain t frame (by rw [htask]; rfl)).2
    rw [returned,htask]
    refine hv.request htask hdoes (.go t order frame stage stage' m htask hdoes) rfl ?_ ?_
    · rintro _ ⟨⟩
      exact (hv.knows t frame stage htask).go (hv.keys.copies t frame stage htask).1 hcreate hv.seen
        hdoes
    · rintro _ ⟨⟩
  | done t order frame stage m result htask hdoes =>
    obtain ⟨hown,hfits⟩ := hv.keys.copies t frame stage htask
    have hcreate := (hv.plain t frame (by rw [htask]; rfl)).2
    rw [returned,htask]
    refine hv.request htask hdoes (.done t order frame stage m result htask hdoes) rfl ?_ ?_
    · rintro _ ⟨⟩
    · rintro _ ⟨⟩
      exact (hv.knows t frame stage htask).done hown hfits hcreate hdoes
  | leave t order frame result htask =>
    rw [returned,htask]
    exact hv.leave htask (.leave t order frame result htask)
end

end AetherX.SessionSightings
