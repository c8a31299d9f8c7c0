import Mathlib.Data.Finset.Option
import AetherX.SessionSightings

/-! AutoFailover beside heartbeats, migrations and closes of the same sessions. It chooses from a
list that it has read without a lock, and MigrateSession does not look at what it has chosen by. -/
namespace AetherX.AutoFailover
open Supervisor (Instant Duration)
open SessionStore SessionManager SessionThreads SessionSightings Machine
variable {τ : Type*}

/- A node that AutoFailover has changed, and the heartbeats that had returned by then. -/
structure Change where
  id : String
  changedAt : Instant
  beats : List Beat

def nodeOf (pg : Store) (id : String) : Option String := (pg.row id).map Session.nodeId

/- The session whose node a request on behalf of AutoFailover has changed. -/
def changing (pg pg' : Store) : Task → Option String
  | .inside ⟨call,.failover _⟩ _ =>
    if nodeOf pg' (target call)=nodeOf pg (target call) then none else some (target call)
  | _ => none

/- The threads with their history: the heartbeats that have returned, the sessions whose node the
   latest AutoFailover of each thread has changed, and all such changes. -/
structure Watch (τ : Type*) where
  threads : Threads τ
  beats : List Beat
  moved : τ → Finset String
  changes : List Change

namespace Watch
def start (m : Manager) (now : Instant) (beats : List Beat) : Watch τ :=
  ⟨.start m now,beats,fun _ => ∅,[]⟩

variable [DecidableEq τ]

def note (w : Watch τ) (threads : Threads τ) : Event τ → Watch τ
  | .resume t _ =>
    let changed := changing w.threads.manager.pg threads.manager.pg (w.threads.task t)
    { threads := threads
      beats := returning w.threads.now (w.threads.task t)++w.beats
      moved := Function.update w.moved t (w.moved t ∪ changed.toFinset)
      changes := (changed.map fun id => ⟨id,w.threads.now,w.beats⟩).toList++w.changes }
  | .failover t _ _ =>
    match w.threads.task t with
    | .idle _ => { w with threads := threads, moved := Function.update w.moved t ∅ }
    | _ => { w with threads := threads }
  | _ => { w with threads := threads }

def handle (w : Watch τ) (e : Event τ) : Watch τ := w.note (w.threads.handle e) e

def run (w : Watch τ) (events : List (Event τ)) : Watch τ := events.foldl handle w

end Watch

/- A heartbeat returns soon after it has read the clock. When AutoFailover's migration has read
   its session, that is still stale, by as much again, and not yet on the node chosen for it. -/
def Due (delay : Duration) (now : Instant) : Task → Prop
  | .inside ⟨.migrate _ node _,.failover _⟩ (.working s) =>
    s.active=true → s.lastSeenAt+delay+staleAfter < now ∧ s.nodeId≠trimSpace node
  | .leaving ⟨.heartbeat _ _ _,_⟩ (.ok s) => now ≤ s.lastSeenAt+delay
  | _ => True

def Orderly (delay : Duration) (w : Watch τ) : Event τ → Prop
  | .resume t _ => Due delay w.threads.now (w.threads.task t)
  | _ => True

/- A heartbeat before the start: it has returned in time and the store has kept its stamp. -/
structure Kept (delay : Duration) (m : Manager) (now : Instant) (b : Beat) : Prop
    extends Seen m now b where
  soon : b.doneAt ≤ b.stamp+delay

def recorded : Stage → Bool
  | .saving _ | .caching _ => true
  | _ => false

/- No session comes up twice in the list, or is among these. -/
structure Ahead (ids : Finset String) (loop : Loop) : Prop where
  nodup : (loop.rest.map Session.id).Nodup
  fresh : ∀ s∈loop.rest, s.id∉ids

/- AutoFailover in a migration whose node has been changed or not. -/
structure Owed (changed : Bool) (moved : Finset String) (call : Call) (loop : Loop) : Prop where
  migrates : ∃ id node ip, call = .migrate id node ip
  ahead : Ahead (insert (target call) moved) loop
  mem_iff : target call∈moved ↔ changed=true
  count : loop.migrated+changed.toNat=moved.card

def Tally (moved : Finset String) : Task → Prop
  | .idle (some (.failedOver n)) => n=moved.card
  | .listing _ _ => moved = ∅
  | .cutting _ sessions => moved = ∅ ∧ (sessions.map Session.id).Nodup
  | .choosing loop => Ahead moved loop ∧ loop.migrated=moved.card
  | .waiting ⟨call,.failover loop⟩ => Owed false moved call loop
  | .inside ⟨call,.failover loop⟩ stage => Owed (recorded stage) moved call loop
  | .leaving ⟨call,.failover loop⟩ result => Owed result.toBool moved call loop
  | _ => True

section
variable {delay : Duration} {now : Instant} {m m' : Manager} {beats : List Beat} {frame : Frame}
  {stage stage' : Stage} {moved ids ids' : Finset String} {loop : Loop} {call : Call}

theorem Ahead.mono (h : Ahead ids loop) (hsub : ids' ⊆ ids) : Ahead ids' loop :=
  ⟨h.nodup,fun s hs hmem => h.fresh s hs (hsub hmem)⟩

theorem Owed.record (h : Owed false moved call loop) :
    Owed true (insert (target call) moved) call loop where
  migrates := h.migrates
  ahead := by
    rw [Finset.insert_idem]
    exact h.ahead
  mem_iff := by simp
  count := by
    have hnot : target call∉moved := fun hmem => absurd (h.mem_iff.mp hmem) nofun
    rw [Finset.card_insert_of_notMem hnot,← h.count]
    rfl

theorem Ahead.pass {s : Session} {rest : List Session} (h : Ahead moved loop)
    (hrest : loop.rest=s::rest) : Ahead (insert s.id moved) (loop.pass rest) ∧ s.id∉moved := by
  obtain ⟨hnodup,hfresh⟩ := h
  rw [hrest,List.map_cons,List.nodup_cons] at hnodup
  rw [hrest] at hfresh
  refine ⟨⟨hnodup.2,fun t ht hmem => ?_⟩,hfresh s List.mem_cons_self⟩
  rcases Finset.mem_insert.mp hmem with hid | hold
  · exact hnodup.1 (List.mem_map.mpr ⟨t,ht,hid⟩)
  · exact hfresh t (List.mem_cons_of_mem _ ht) hold

theorem tally_next (h : Tally moved (.choosing loop)) : Tally moved loop.next := by
  obtain ⟨hahead,hcount⟩ := h
  rcases next_cases loop with ⟨-,hnext⟩ | ⟨s,rest,hrest,hnext⟩
  · rw [hnext]
    exact hcount
  · obtain ⟨hturn,hnew⟩ := hahead.pass hrest
    rcases hnext with hnext | ⟨node,-,hnext⟩
    · rw [hnext]
      exact ⟨hturn.mono (Finset.subset_insert _ _),hcount⟩
    · rw [hnext]
      exact ⟨⟨_,_,_,rfl⟩,hturn,iff_of_false hnew nofun,hcount⟩

theorem nodup_arrange (order : List Session) (pg : Store) (userId : String) :
    ((arrange order (pg.listActiveByUser userId)).map Session.id).Nodup := by
  have hrows : ((pg.listActiveByUser userId).map Session.id).Nodup :=
    pg.nodup_ids.sublist (List.filter_sublist.map _)
  rw [arrange]
  split_ifs with hperm
  · exact ((hperm.map Session.id).nodup_iff).mpr hrows
  · exact hrows

theorem tally_outside {w : Threads τ} {t : τ} {e : Event τ} {before after : Task}
    (houtside : Outside w t e before after) (hstarts : ¬ ∃ userId nodes, e = .failover t userId nodes)
    (h : Tally moved before) : Tally moved after := by
  cases houtside with
  | refused | called => trivial
  | started before userId nodes => exact absurd ⟨userId,nodes,rfl⟩ hstarts
  | listed userId nodes order => exact ⟨h,nodup_arrange order w.manager.pg userId⟩
  | cut nodes sessions order =>
    obtain ⟨rfl,hnodup⟩ := h
    exact ⟨⟨hnodup,fun s _ => Finset.notMem_empty _⟩,rfl⟩
  | chose loop order => exact tally_next h

theorem move_keeps {s : Session} {node ip : String} (h : move s now node ip = .ok none) :
    s.active=true ∧ s.nodeId=node := by
  rw [move] at h
  split_ifs at h with hactive hmigratable hnode <;> cases h
  exact ⟨by simpa using hactive,hnode⟩

/-- A migration changes the node of its session when it records it, and not again. -/
theorem node_go (h : Knows now m beats frame.call stage) (hown : Owns frame.call stage)
    (hfits : Fits frame.call stage) (hmigrate : ∃ id node ip, frame.call = .migrate id node ip)
    (hdoes : Does frame.call now m stage m' (.go stage')) :
    (nodeOf m'.pg (target frame.call)=nodeOf m.pg (target frame.call) ∧
        recorded stage'=recorded stage) ∨
      ∃ s, stage = .recording s ∧ stage' = .saving s ∧
        nodeOf m'.pg (target frame.call)≠nodeOf m.pg (target frame.call) := by
  obtain ⟨id,node,ip,hcall⟩ := hmigrate
  generalize hr : Next.go stage'=r at hdoes
  cases hdoes with
  | recorded s pg hpg =>
    cases hr
    obtain ⟨old,hold,hnode,-⟩ := h
    refine .inr ⟨s,rfl,rfl,fun heq => hnode ?_⟩
    rw [nodeOf,nodeOf,Manager.withStore_pg,Store.row_edit hpg,if_pos rfl,hold] at heq
    exact (Option.some.inj heq).symm
  | saved s pg hpg =>
    cases hr
    obtain ⟨old,hold,hstarted,-,-,hnode⟩ := h
    have hid := (hown s rfl).1
    refine .inl ⟨?_,by rw [hcall]; rfl⟩
    rw [nodeOf,nodeOf,Manager.withStore_pg,Store.row_saveSession hpg,if_pos hid.symm,
      stored_of_row (by rw [hid]; exact hold) hstarted,hold]
    exact congrArg some (hnode id node ip hcall).symm
  | edited s t hedit =>
    cases hr
    exact .inl ⟨rfl,by rw [hcall]; rfl⟩
  | filled s =>
    cases hr
    exact .inl ⟨by rw [Manager.tell_pg],rfl⟩
  | hit | missed | loaded | uncached =>
    cases hr
    exact .inl ⟨rfl,rfl⟩
  | cached s =>
    rw [hcall] at hr
    cases hr
  | uncounted | counted =>
    obtain ⟨_,_,_,hbeat⟩ := hfits
    rw [hcall] at hbeat
    cases hbeat
  | added =>
    obtain ⟨c,hc⟩ := hfits
    rw [hcall] at hc
    cases hc
  | evicted | delisted =>
    obtain ⟨c,hc⟩ := hfits
    rw [hcall] at hc
    cases hc
  | absent | refused | kept | unrecorded | unsaved | expired | undeleted | deleted => cases hr

variable {result : Except SessionError Session}

/-- A migration for AutoFailover returns nil only after it has changed the node. -/
theorem node_done (h : Knows now m beats frame.call stage) (hown : Owns frame.call stage)
    (hfits : Fits frame.call stage) (hmigrate : ∃ id node ip, frame.call = .migrate id node ip)
    (hcaller : frame.caller = .failover loop) (hdue : Due delay now (.inside frame stage))
    (hdoes : Does frame.call now m stage m' (.done result)) :
    nodeOf m'.pg (target frame.call)=nodeOf m.pg (target frame.call) ∧
      result.toBool=recorded stage := by
  obtain ⟨id,node,ip,hcall⟩ := hmigrate
  obtain ⟨call,caller⟩ := frame
  obtain rfl : call = .migrate id node ip := hcall
  obtain rfl : caller = .failover loop := hcaller
  generalize hr : Next.done result=r at hdoes
  cases hdoes with
  | absent | refused =>
    cases hr
    exact ⟨rfl,rfl⟩
  | kept s hedit =>
    obtain ⟨hactive,hnode⟩ := move_keeps hedit
    exact absurd hnode (hdue hactive).2
  | unrecorded s e he =>
    obtain ⟨old,hold,-⟩ := h
    exact absurd he (Store.recordMigration_ne_error hold _ e)
  | unsaved s e he =>
    obtain ⟨hid,hne⟩ := hown s rfl
    exact absurd he (Store.saveSession_ne_error (hid ▸ hne) e)
  | cached s =>
    cases hr
    exact ⟨by rw [Manager.tell_pg],rfl⟩
  | expired | undeleted | deleted =>
    obtain ⟨_,hc⟩ := hfits
    cases hc
  | hit | missed | loaded | uncached | filled | edited | recorded | saved | uncounted | counted
  | added | evicted | delisted => cases hr

theorem changing_of_node {pg pg' : Store}
    (h : nodeOf pg' (target frame.call)=nodeOf pg (target frame.call)) :
    changing pg pg' (.inside frame stage)=none := by
  obtain ⟨call,caller⟩ := frame
  cases caller with
  | client => rfl
  | failover loop => exact if_pos h

theorem tally_go (htally : Tally moved (.inside frame stage))
    (h : Knows now m beats frame.call stage) (hown : Owns frame.call stage)
    (hfits : Fits frame.call stage) (hdoes : Does frame.call now m stage m' (.go stage')) :
    Tally (moved ∪ (changing m.pg m'.pg (.inside frame stage)).toFinset) (.inside frame stage') := by
  obtain ⟨call,caller⟩ := frame
  cases caller with
  | client => trivial
  | failover loop =>
    have howed : Owed (recorded stage) moved call loop := htally
    rcases node_go h hown hfits howed.migrates hdoes with ⟨hnode,hstage⟩ | ⟨s,rfl,rfl,hnode⟩
    · rw [changing_of_node hnode,Option.toFinset_none,Finset.union_empty,Tally,hstage]
      exact howed
    · rw [changing,if_neg hnode,Option.toFinset_some,Finset.union_comm,← Finset.insert_eq]
      exact Owed.record howed

theorem tally_done (htally : Tally moved (.inside frame stage))
    (h : Knows now m beats frame.call stage) (hown : Owns frame.call stage)
    (hfits : Fits frame.call stage) (hdue : Due delay now (.inside frame stage))
    (hdoes : Does frame.call now m stage m' (.done result)) :
    Tally (moved ∪ (changing m.pg m'.pg (.inside frame stage)).toFinset) (.leaving frame result) := by
  obtain ⟨call,caller⟩ := frame
  cases caller with
  | client => trivial
  | failover loop =>
    have howed : Owed (recorded stage) moved call loop := htally
    obtain ⟨hnode,hresult⟩ := node_done h hown hfits howed.migrates rfl hdue hdoes
    rw [changing_of_node hnode,Option.toFinset_none,Finset.union_empty,Tally,hresult]
    exact howed

theorem tally_enter (htally : Tally moved (.waiting frame)) :
    Tally moved (.inside frame (.first frame.call)) := by
  obtain ⟨call,caller⟩ := frame
  cases caller with
  | client => trivial
  | failover loop =>
    have howed : Owed false moved call loop := htally
    obtain ⟨id,node,ip,rfl⟩ := howed.migrates
    exact howed

theorem tally_leave (htally : Tally moved (.leaving frame result)) :
    Tally moved (frame.caller.resume result) := by
  obtain ⟨call,caller⟩ := frame
  cases caller with
  | client => trivial
  | failover loop =>
    have howed : Owed result.toBool moved call loop := htally
    have hahead := howed.ahead.mono (Finset.subset_insert _ _)
    cases result with
    | error e => exact ⟨hahead,howed.count⟩
    | ok s => exact ⟨⟨hahead.nodup,hahead.fresh⟩,howed.count⟩
end

def Stale (delay : Duration) (now : Instant) (pg : Store) : Task → Prop
  | .inside ⟨call,.failover _⟩ (.recording _) =>
    ∀ s, pg.row (target call)=some s → s.lastSeenAt+delay+staleAfter < now
  | _ => True

structure Inv (delay : Duration) (w : Watch τ) : Prop where
  view : View w.threads w.beats
  soon : ∀ b∈w.beats, b.doneAt ≤ b.stamp+delay
  tally : ∀ t, Tally (w.moved t) (w.threads.task t)
  stale : ∀ t, Stale delay w.threads.now w.threads.manager.pg (w.threads.task t)
  changes : ∀ c∈w.changes, ∀ b∈c.beats, b.id=c.id → b.doneAt+staleAfter < c.changedAt

theorem Inv.start {delay : Duration} {m : Manager} (hm : ∀ id, Agrees m id) {now : Instant}
    {beats : List Beat} (hbeats : ∀ b∈beats, Kept delay m now b) :
    Inv delay (.start m now beats : Watch τ) where
  view := .start hm fun b hb => (hbeats b hb).toSeen
  soon b hb := (hbeats b hb).soon
  tally _ := trivial
  stale _ := trivial
  changes := by rintro _ ⟨⟩

section
variable {delay : Duration} {now now' : Instant} {pg pg' : Store} {w : Watch τ} {t : τ} {frame : Frame}
  {stage stage' : Stage} {m m' : Manager} {before after : Task} {order : List Session} {e : Event τ}
  {result : Except SessionError Session} {beats : List Beat} {threads : Threads τ}

theorem Stale.mono {task : Task} (h : Stale delay now pg task) (hnow : now ≤ now')
    (hrow : ∀ frame, task.frame=some frame → pg'.row (target frame.call)=pg.row (target frame.call)) :
    Stale delay now' pg' task := by
  cases task with
  | inside frame stage =>
    obtain ⟨call,caller⟩ := frame
    cases caller with
    | client => trivial
    | failover loop =>
      cases stage with
      | recording c =>
        intro s hs
        rw [hrow _ rfl] at hs
        exact (h s hs).trans_le hnow
      | _ => trivial
  | _ => trivial

theorem stale_of_frame (h : after.frame=none) : Stale delay now pg after := by
  cases after with
  | inside frame stage => cases h
  | _ => trivial

theorem stale_first (frame : Frame) :
    Stale delay now pg (.inside frame (.first frame.call)) := by
  obtain ⟨call,caller⟩ := frame
  cases caller with
  | client => trivial
  | failover loop => cases call <;> trivial

/-- The session is as stale when its migration is recorded as it was when it was read. -/
theorem stale_go (h : Knows now m beats frame.call stage) (hcreate : ∀ c, frame.call ≠ .create c)
    (hdue : Due delay now (.inside frame stage))
    (hdoes : Does frame.call now m stage m' (.go stage')) :
    Stale delay now m'.pg (.inside frame stage') := by
  obtain ⟨call,caller⟩ := frame
  cases caller with
  | client => trivial
  | failover loop =>
    generalize hr : Next.go stage'=r at hdoes
    cases hdoes with
    | edited s t hedit =>
      cases hr
      cases call with
      | migrate id node ip =>
        intro c hc
        rw [← Option.some.inj (h.2.symm.trans hc)]
        exact (hdue (move_changes hedit).1).1
      | _ => trivial
    | saved s pg hpg =>
      cases hr
      cases call <;> trivial
    | cached s =>
      cases call with
      | create c => exact absurd rfl (hcreate c)
      | _ => cases hr
    | hit | missed | loaded | uncached | filled | recorded | uncounted | counted | added | evicted
    | delisted =>
      cases hr
      trivial
    | absent | refused | kept | unrecorded | unsaved | expired | undeleted | deleted => cases hr

theorem soon_of_returned (horder : Orderly delay w e) {b : Beat} (hb : b∈returned w.threads e) :
    b.doneAt ≤ b.stamp+delay := by
  cases e with
  | resume t order =>
    rw [returned] at hb
    rw [Orderly] at horder
    cases htask : w.threads.task t with
    | leaving frame result =>
      rw [htask] at hb horder
      obtain ⟨up,down,s,hcall,rfl,hstamp,hdone⟩ := mem_returning hb
      obtain ⟨call,caller⟩ := frame
      obtain rfl : call = .heartbeat b.id up down := hcall
      rw [hstamp,hdone]
      exact horder
    | _ =>
      rw [htask] at hb
      cases hb
  | _ => cases hb

theorem changing_of_frame {task : Task} (h : task.frame=none) : changing pg pg' task=none := by
  cases task with
  | inside frame stage => cases h
  | _ => rfl

/-- Only the recording of a migration for AutoFailover changes a node in its name. -/
theorem Inv.recording_of_changing (hw : Inv delay w) (htask : w.threads.task t = .inside frame stage)
    (hdue : Due delay w.threads.now (.inside frame stage)) {r : Next}
    (hdoes : Does frame.call w.threads.now w.threads.manager stage m r) {id : String}
    (hid : changing w.threads.manager.pg m.pg (.inside frame stage)=some id) :
    id=target frame.call ∧ ∃ s loop, stage = .recording s ∧ frame.caller = .failover loop := by
  obtain ⟨hown,hfits⟩ := hw.view.keys.copies t frame stage htask
  have hknows := hw.view.knows t frame stage htask
  have htally := hw.tally t
  rw [htask] at htally
  obtain ⟨call,caller⟩ := frame
  cases caller with
  | client => cases hid
  | failover loop =>
    have howed : Owed (recorded stage) (w.moved t) call loop := htally
    cases r with
    | go stage' =>
      rcases node_go hknows hown hfits howed.migrates hdoes with ⟨hnode,-⟩ | ⟨s,rfl,-,hnode⟩
      · rw [changing_of_node hnode] at hid
        cases hid
      · rw [changing,if_neg hnode] at hid
        exact ⟨(Option.some.inj hid).symm,s,loop,rfl,rfl⟩
    | done result =>
      rw [changing_of_node (node_done hknows hown hfits howed.migrates rfl hdue hdoes).1] at hid
      cases hid

/-- A session whose node AutoFailover changes has had no heartbeat for two minutes. -/
theorem Inv.quiet_of_changing (hw : Inv delay w) (htask : w.threads.task t = .inside frame stage)
    (hdue : Due delay w.threads.now (.inside frame stage)) {r : Next}
    (hdoes : Does frame.call w.threads.now w.threads.manager stage m r) {id : String}
    (hid : changing w.threads.manager.pg m.pg (.inside frame stage)=some id) :
    ∀ b∈w.beats, b.id=id → b.doneAt+staleAfter < w.threads.now := by
  obtain ⟨rfl,s,loop,rfl,hcaller⟩ := hw.recording_of_changing htask hdue hdoes hid
  have hstale := hw.stale t
  obtain ⟨old,hold,-⟩ := hw.view.knows t frame (.recording s) htask
  obtain ⟨call,caller⟩ := frame
  obtain rfl : caller = .failover loop := hcaller
  rw [htask] at hstale
  intro b hb hbid
  have hstamp : b.stamp ≤ old.lastSeenAt := (hw.view.seen b hb).seen old (by rw [hbid]; exact hold)
  calc b.doneAt+staleAfter ≤ b.stamp+delay+staleAfter := Nat.add_le_add_right (hw.soon b hb) _
    _ ≤ old.lastSeenAt+delay+staleAfter :=
      Nat.add_le_add_right (Nat.add_le_add_right hstamp _) _
    _ < w.threads.now := hstale old hold

variable [DecidableEq τ]

theorem note_threads (w : Watch τ) (threads : Threads τ) (e : Event τ) :
    (w.note threads e).threads=threads := by
  cases e with
  | failover t userId nodes =>
    rw [Watch.note]
    split <;> rfl
  | _ => rfl

theorem note_beats (w : Watch τ) (threads : Threads τ) (e : Event τ) :
    (w.note threads e).beats=returned w.threads e++w.beats := by
  cases e with
  | failover t userId nodes =>
    rw [Watch.note]
    split <;> rfl
  | _ => rfl

theorem note_changes (hbetween : Between w.threads e) (threads : Threads τ) :
    (w.note threads e).changes=w.changes := by
  cases e with
  | resume t order =>
    rw [Watch.note,changing_of_frame (hbetween t order rfl)]
    rfl
  | failover t userId nodes =>
    rw [Watch.note]
    split <;> rfl
  | _ => rfl

theorem note_moved (hbetween : Between w.threads e) (hstarts : ¬ Starts w.threads e)
    (threads : Threads τ) : (w.note threads e).moved=w.moved := by
  cases e with
  | resume t order =>
    rw [Watch.note,changing_of_frame (hbetween t order rfl)]
    simp
  | failover t userId nodes =>
    rw [Watch.note]
    cases htask : w.threads.task t with
    | idle before => exact absurd ⟨t,userId,nodes,before,rfl,htask⟩ hstarts
    | _ => rfl
  | _ => rfl

theorem note_inside (htask : w.threads.task t = .inside frame stage) (threads : Threads τ) :
    w.note threads (.resume t order) =
      { threads := threads
        beats := w.beats
        moved := Function.update w.moved t (w.moved t ∪
          (changing w.threads.manager.pg threads.manager.pg (.inside frame stage)).toFinset)
        changes := ((changing w.threads.manager.pg threads.manager.pg (.inside frame stage)).map
          fun id => ⟨id,w.threads.now,w.beats⟩).toList++w.changes } := by
  rw [Watch.note,htask]
  rfl

theorem note_leaving {result : Except SessionError Session}
    (htask : w.threads.task t = .leaving frame result) (threads : Threads τ) :
    w.note threads (.resume t order) =
      { w with threads := threads, beats := returning w.threads.now (.leaving frame result)++w.beats } := by
  rw [Watch.note,htask]
  simp [changing]

theorem Inv.stale_move (hw : Inv delay w) (horder : Orderly delay w e)
    (hmove : Move w.threads e threads) (t : τ) :
    Stale delay threads.now threads.manager.pg (threads.task t) := by
  cases hmove with
  | stay => exact hw.stale t
  | tick d => exact (hw.stale t).mono (Nat.le_add_right _ _) fun _ _ => rfl
  | outside e t₀ after hbetween houtside =>
    rw [task_become]
    split_ifs
    · exact stale_of_frame houtside.frames.2
    · exact hw.stale t
  | free t₀ before call htask hfree =>
    rw [task_become]
    split_ifs
    · trivial
    · exact hw.stale t
  | enter t₀ order frame htask hfree =>
    rw [task_become]
    split_ifs
    · exact stale_first frame
    · exact hw.stale t
  | go t₀ order frame stage stage' m htask hdoes =>
    rw [Orderly,htask] at horder
    rw [task_become]
    split_ifs with ht
    · exact stale_go (hw.view.knows t₀ frame stage htask)
        (hw.view.plain t₀ frame (by rw [htask]; rfl)).2 horder hdoes
    · exact (hw.stale t).mono le_rfl fun frame' hframe' => (hw.view.others htask hdoes ht hframe').2
  | done t₀ order frame stage m result htask hdoes =>
    rw [task_become]
    split_ifs with ht
    · trivial
    · exact (hw.stale t).mono le_rfl fun frame' hframe' => (hw.view.others htask hdoes ht hframe').2
  | leave t₀ order frame result htask =>
    rw [task_become,task_release]
    split_ifs
    · exact stale_of_frame (frame_resume _ _)
    · refine (hw.stale t).mono (now_release _ _).ge fun frame' _ => ?_
      exact congrArg (fun m => m.pg.row (target frame'.call)) (manager_release _ _)

/-- An AutoFailover that begins has moved nothing, and what goes on outside all calls moves nothing. -/
theorem Inv.tally_become (hw : Inv delay w) (hbetween : Between w.threads e)
    (houtside : Outside w.threads t e (w.threads.task t) after) (t' : τ) :
    Tally ((w.note (w.threads.become t after) e).moved t') ((w.threads.become t after).task t') := by
  by_cases hstarts : Starts w.threads e
  · obtain ⟨t₀,userId,nodes,before,rfl,hidle⟩ := hstarts
    generalize hbefore : w.threads.task t=task at houtside
    cases houtside with
    | started before' =>
      rw [Watch.note,hidle]
      dsimp only
      rw [task_become,Function.update_apply]
      split_ifs
      · rfl
      · exact hw.tally t'
  · rw [note_moved hbetween hstarts,task_become]
    split_ifs with ht
    · rw [ht]
      refine tally_outside houtside ?_ (hw.tally t)
      rintro ⟨userId,nodes,rfl⟩
      generalize hbefore : w.threads.task t=task at houtside
      cases houtside with
      | started before => exact hstarts ⟨t,userId,nodes,before,rfl,hbefore⟩
    · exact hw.tally t'

theorem Inv.tally_move (hw : Inv delay w) (hbeside : Beside e) (horder : Orderly delay w e)
    (hmove : Move w.threads e threads) (t : τ) :
    Tally ((w.note threads e).moved t) (threads.task t) := by
  cases hmove with
  | stay e hbetween hstarts =>
    rw [note_moved hbetween hstarts]
    exact hw.tally t
  | tick d => exact hw.tally t
  | outside e t₀ after hbetween houtside => exact hw.tally_become hbetween houtside t
  | free t₀ before call htask hfree =>
    cases call with
    | get id => exact hbeside.elim
    | _ => cases hfree
  | enter t₀ order frame htask hfree =>
    rw [note_moved (between_resume (by rw [htask]; rfl)) not_starts_resume,task_become]
    split_ifs with ht
    · rw [ht]
      exact tally_enter (htask ▸ hw.tally t₀)
    · exact hw.tally t
  | go t₀ order frame stage stage' m htask hdoes =>
    obtain ⟨hown,hfits⟩ := hw.view.keys.copies t₀ frame stage htask
    rw [note_inside htask]
    dsimp only
    rw [task_become,Function.update_apply]
    split_ifs with ht
    · exact tally_go (htask ▸ hw.tally t₀) (hw.view.knows t₀ frame stage htask) hown hfits hdoes
    · exact hw.tally t
  | done t₀ order frame stage m result htask hdoes =>
    obtain ⟨hown,hfits⟩ := hw.view.keys.copies t₀ frame stage htask
    rw [Orderly,htask] at horder
    rw [note_inside htask]
    dsimp only
    rw [task_become,Function.update_apply]
    split_ifs with ht
    · exact tally_done (htask ▸ hw.tally t₀) (hw.view.knows t₀ frame stage htask) hown hfits horder
        hdoes
    · exact hw.tally t
  | leave t₀ order frame result htask =>
    rw [note_leaving htask,task_become,task_release]
    split_ifs with ht
    · rw [ht]
      exact tally_leave (htask ▸ hw.tally t₀)
    · exact hw.tally t

theorem Inv.changes_inside (hw : Inv delay w) (htask : w.threads.task t = .inside frame stage)
    (hdue : Due delay w.threads.now (.inside frame stage)) {r : Next}
    (hdoes : Does frame.call w.threads.now w.threads.manager stage m r) (after : Task) :
    ∀ c∈(w.note ((w.threads.withManager m).become t after) (.resume t order)).changes,
      ∀ b∈c.beats, b.id=c.id → b.doneAt+staleAfter < c.changedAt := by
  rw [note_inside htask]
  intro c hc
  rcases List.mem_append.mp hc with hnew | hold
  · obtain ⟨id,hid,rfl⟩ := Option.map_eq_some_iff.mp (Option.mem_toList.mp hnew)
    exact hw.quiet_of_changing htask hdue hdoes hid
  · exact hw.changes c hold

theorem Inv.changes_move (hw : Inv delay w) (horder : Orderly delay w e)
    (hmove : Move w.threads e threads) : ∀ c∈(w.note threads e).changes,
      ∀ b∈c.beats, b.id=c.id → b.doneAt+staleAfter < c.changedAt := by
  cases hmove with
  | stay e hbetween hstarts =>
    rw [note_changes hbetween]
    exact hw.changes
  | tick d => exact hw.changes
  | outside e t after hbetween houtside =>
    rw [note_changes hbetween]
    exact hw.changes
  | free t before call htask hfree => exact hw.changes
  | enter t order frame htask hfree =>
    rw [note_changes (between_resume (by rw [htask]; rfl))]
    exact hw.changes
  | go t order frame stage stage' m htask hdoes =>
    rw [Orderly,htask] at horder
    exact hw.changes_inside htask horder hdoes _
  | done t order frame stage m result htask hdoes =>
    rw [Orderly,htask] at horder
    exact hw.changes_inside htask horder hdoes _
  | leave t order frame result htask =>
    rw [note_leaving htask]
    exact hw.changes

theorem Inv.handle (hw : Inv delay w) (hbeside : Beside e) (horder : Orderly delay w e) :
    Inv delay (w.handle e) := by
  have hmove := move_handle w.threads e
  refine ⟨?_,fun b hb => ?_,fun t => ?_,fun t => ?_,hw.changes_move horder hmove⟩
  · rw [Watch.handle,note_threads,note_beats]
    exact hw.view.move hbeside hmove
  · rw [Watch.handle,note_beats] at hb
    rcases List.mem_append.mp hb with hnew | hold
    · exact soon_of_returned horder hnew
    · exact hw.soon b hold
  · rw [Watch.handle,note_threads]
    exact hw.tally_move hbeside horder hmove t
  · rw [Watch.handle,note_threads]
    exact hw.stale_move horder hmove t
end

/-- AutoFailover moves stale sessions only, and counts what it has moved, as long as the sessions
that it migrates are found as stale as they were listed and still away from their new node. -/
theorem moves_only_stale [DecidableEq τ] {delay : Duration} {m : Manager} {now : Instant}
    {beats : List Beat} (hm : ∀ id, Agrees m id) (hbeats : ∀ b∈beats, Kept delay m now b)
    {events : List (Event τ)} (hbeside : ∀ e∈events, Beside e) {w : Watch τ}
    (hrun : Run (Guarded (Orderly delay) Watch.handle) (.start m now beats) events w) :
    (∀ c∈w.changes, ∀ b∈c.beats, b.id=c.id → b.doneAt+staleAfter < c.changedAt) ∧
      ∀ t n, w.threads.task t = .idle (some (.failedOver n)) → n=(w.moved t).card := by
  have hstep : ∀ (w : Watch τ) (e : Event τ) (w' : Watch τ), Inv delay w →
      (Beside e ∧ Guarded (Orderly delay) Watch.handle w e w') → Inv delay w' := by
    rintro w e w' hw ⟨he,horder,rfl⟩
    exact hw.handle he horder
  have hinv := (hrun.labels hbeside).invariant (.start hm hbeats) hstep
  refine ⟨hinv.changes,fun t n ht => ?_⟩
  have htally := hinv.tally t
  rw [ht] at htally
  exact htally

section
variable [DecidableEq τ]

instance (e : Event τ) : Decidable (Beside e) :=
  match e with
  | .call _ (.create _) => .isFalse id
  | .call _ (.get _) => .isFalse id
  | .call _ (.heartbeat _ _ _) => .isTrue trivial
  | .call _ (.migrate _ _ _) => .isTrue trivial
  | .call _ (.close _) => .isTrue trivial
  | .failover _ _ _ => .isTrue trivial
  | .resume _ _ => .isTrue trivial
  | .tick _ => .isTrue trivial

instance (delay : Duration) (now : Instant) (task : Task) : Decidable (Due delay now task) := by
  unfold Due
  split <;> infer_instance

instance (delay : Duration) (w : Watch τ) (e : Event τ) : Decidable (Orderly delay w e) :=
  match e with
  | .resume t _ => inferInstanceAs (Decidable (Due delay w.threads.now (w.threads.task t)))
  | .call _ _ => .isTrue trivial
  | .failover _ _ _ => .isTrue trivial
  | .tick _ => .isTrue trivial
end

/- One session of one user in the store, and nothing in the cache. -/
def parked : Manager := ⟨some .empty,(Store.empty .memory).put SessionCache.device (by decide)⟩

theorem agrees_parked (id : String) : Agrees parked id := agrees_of_none rfl

def countOf : Task → Option Nat
  | .idle (some (.failedOver n)) => some n
  | _ => none

theorem task_of_count {task : Task} {n : Nat} (h : countOf task=some n) :
    task = .idle (some (.failedOver n)) := by
  unfold countOf at h
  split at h
  · rw [Option.some.inj h]
  · cases h

/- A heartbeat, and an AutoFailover over two minutes later. -/
def parting : List (Event Unit) :=
  [calling () (.heartbeat "s1" 1 1) 9,[.tick (staleAfter+1),.failover () "u1" ["n1", "n2"]],
    running () 11].flatten

theorem moves_only_stale_parting :
    (((Watch.start parked 0 []).run parting).changes.map fun c => (c.id, c.beats.length))=[("s1", 1)] ∧
      (∀ c∈((Watch.start parked 0 []).run parting).changes, ∀ b∈c.beats, b.id=c.id →
        b.doneAt+staleAfter < c.changedAt) ∧
      countOf (((Watch.start parked 0 []).run parting).threads.task ()) =
        some (((Watch.start parked 0 []).run parting).moved ()).card := by
  have hbeside : ∀ e∈parting, Beside e := by decide +kernel
  have hrun : Run (Guarded (Orderly 0) Watch.handle) (Watch.start parked 0 []) parting
      ((Watch.start parked 0 []).run parting) :=
    run_of_checks (fun _ _ => of_decide_eq_true) (by decide +kernel)
  have hcount : countOf (((Watch.start parked 0 []).run parting).threads.task ())=some 1 := by
    decide +kernel
  obtain ⟨hstale,hmoved⟩ := moves_only_stale agrees_parked (List.forall_mem_nil _) hbeside
    hrun
  refine ⟨by decide +kernel,hstale,?_⟩
  rw [hcount,← hmoved () 1 (task_of_count hcount)]

/- The first thread has listed the session. The second has a heartbeat of it, and the first goes
   on. -/
def overtaken : List (Event Bool) :=
  [[.tick (staleAfter+1),.failover true "u1" ["n1", "n2"]],running true 2,
    calling false (.heartbeat "s1" 1 1) 9,running true 9].flatten

/- The second thread moves the session to the node that the first has to choose. -/
def outrun : List (Event Bool) :=
  [[.tick (staleAfter+1),.failover true "u1" ["n1", "n2"]],running true 2,
    calling false (.migrate "s1" "n2" "") 9,running true 6].flatten

/-- A session is moved in the moment of its heartbeat, and one is counted that another call has
moved. -/
theorem live_session_moved :
    (¬ ∀ (m : Manager) (now : Instant) (events : List (Event Bool)), (∀ id, Agrees m id) →
      (∀ e∈events, Beside e) → ∀ c∈((Watch.start m now []).run events).changes,
        ∀ b∈c.beats, b.id=c.id → b.doneAt+staleAfter < c.changedAt) ∧
    ¬ ∀ (m : Manager) (now : Instant) (events : List (Event Bool)), (∀ id, Agrees m id) →
      (∀ e∈events, Beside e) → ∀ t n,
        ((Watch.start m now []).run events).threads.task t = .idle (some (.failedOver n)) →
          n=(((Watch.start m now []).run events).moved t).card := by
  constructor
  · intro h
    have hstale := h parked 0 overtaken agrees_parked (by decide +kernel)
    revert hstale
    decide +kernel
  · intro h
    have hcount : countOf (((Watch.start parked 0 []).run outrun).threads.task true)=some 1 := by
      decide +kernel
    have hmoved : (((Watch.start parked 0 []).run outrun).moved true).card=0 := by decide +kernel
    have hone := h parked 0 outrun agrees_parked (by decide +kernel) true 1 (task_of_count hcount)
    rw [hmoved] at hone
    cases hone

end AetherX.AutoFailover
