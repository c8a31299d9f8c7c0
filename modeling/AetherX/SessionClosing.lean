import AetherX.SessionThreads

/-! Sessions that have been closed, while other calls on them are under way or are made later.
A get does not take the lock, so it may carry a session past the close of it. -/
namespace AetherX.SessionClosing
open SessionStore SessionManager SessionThreads Machine Function
open SessionCache (Keyed entry_of_cached)
variable {τ : Type*}

/- The threads, and which sessions a close has returned nil for since their last creation. -/
structure Watch (τ : Type*) where
  threads : Threads τ
  closed : String → Bool

def note (closed : String → Bool) : Task → String → Bool
  | .leaving ⟨.close id,_⟩ (.ok _) => update closed id true
  | .inside ⟨.create s,_⟩ (.saving _) => update closed s.id false
  | _ => closed

namespace Watch
def start (m : Manager) (now : Supervisor.Instant) : Watch τ := ⟨.start m now,fun _ => false⟩

def noted (w : Watch τ) : Event τ → String → Bool
  | .resume t _ => note w.closed (w.threads.task t)
  | _ => w.closed

def handle [DecidableEq τ] (w : Watch τ) (e : Event τ) : Watch τ :=
  ⟨w.threads.handle e,w.noted e⟩

def run [DecidableEq τ] (w : Watch τ) (events : List (Event τ)) : Watch τ := events.foldl handle w

end Watch

/- The session that a close has taken out of the cache, until it returns. -/
def dropped : Task → Option String
  | .inside ⟨.close id,_⟩ (.delisting _) => some id
  | .inside ⟨.close id,_⟩ (.deleting _) => some id
  | .leaving ⟨.close id,_⟩ (.ok _) => some id
  | _ => none

def Doomed (w : Watch τ) (id : String) : Prop :=
  w.closed id=true ∨ ∃ t, dropped (w.threads.task t)=some id

/- A creation makes its session active, whatever it was. A get that is past the cache has only
   to return. -/
def harmless : Call → Stage → Bool
  | .create _, .working _ => true
  | .create _, .saving _ => true
  | .get _, .working _ => true
  | _, _ => false

/- Nobody has an active session of this name to write. -/
structure Dead (w : Threads τ) (id : String) : Prop where
  cache : ∀ s expiry, w.manager.entry id=some (s, expiry) → s.active=false
  row : ∀ s, w.manager.pg.row id=some s → s.active=false
  copies : ∀ t frame stage s, w.task t = .inside frame stage → target frame.call=id →
    stage.copy=some s → s.active=false ∨ harmless frame.call stage=true

section
variable {call : Call} {now : Supervisor.Instant} {m m' : Manager} {stage stage' : Stage} {result : Next}

theorem harmless_cases (h : harmless call stage=true) :
    (∃ s, stage = .working s) ∨ ∃ c s, call = .create c ∧ stage = .saving s := by
  cases call with
  | create c =>
    cases stage with
    | working s => exact .inl ⟨s,rfl⟩
    | saving s => exact .inr ⟨c,s,rfl,rfl⟩
    | _ => cases h
  | get id =>
    cases stage with
    | working s => exact .inl ⟨s,rfl⟩
    | _ => cases h
  | heartbeat | migrate | close => cases h

theorem edit_inactive {s t : Session} (hs : s.active=false ∨ harmless call (.working s)=true) (h : edit call now s = .ok (some t)) :
    t.active=false ∨ harmless call (.afterEdit call t)=true := by
  cases call with
  | create c => exact .inr rfl
  | get id => cases h
  | heartbeat id up down =>
    rw [edit,beat] at h
    split_ifs at h
    · cases h
    · obtain rfl := Option.some.inj (Except.ok.inj h)
      exact .inl (hs.resolve_right Bool.false_ne_true)
  | migrate id node ip =>
    rw [edit,move,if_pos (hs.resolve_right Bool.false_ne_true)] at h
    cases h
  | close id =>
    obtain rfl := Option.some.inj (Except.ok.inj h)
    exact .inl rfl

/-- A request that is given inactive sessions only makes no active one, a creation apart. -/
theorem quiet_does (h : Does call now m stage m' result) (hown : Owns call stage)
    (hcache : ∀ s expiry, m.entry (target call)=some (s, expiry) → s.active=false)
    (hrow : ∀ s, m.pg.row (target call)=some s → s.active=false)
    (hcopy : ∀ s, stage.copy=some s → s.active=false ∨ harmless call stage=true)
    (hcreate : ∀ c s, call = .create c → stage ≠ .saving s) :
    (∀ s expiry, m'.entry (target call)=some (s, expiry) → s.active=false) ∧
      (∀ s, m'.pg.row (target call)=some s → s.active=false) ∧
      ∀ stage' s, result = .go stage' → stage'.copy=some s →
        s.active=false ∨ harmless call stage'=true := by
  refine ⟨fun s expiry hs => ?_,fun s hs => ?_,fun stage' s hgo hs => ?_⟩
  · rcases h.entry hs with hold | rfl | rfl
    · exact hcache s expiry hold
    · exact (hcopy s rfl).resolve_right (by cases call <;> exact nofun)
    · exact (hcopy s rfl).resolve_right (by cases call <;> exact nofun)
  · rcases h.row hown hs with ⟨c,hc,hactive⟩ | ⟨c,rfl,hactive⟩
    · rw [← hactive]
      exact hrow c hc
    · rw [← hactive]
      refine (hcopy c rfl).resolve_right ?_
      cases call with
      | create s => exact absurd rfl (hcreate s c rfl)
      | _ => exact nofun
  · subst hgo
    rcases h.copy hs with hcached | hr | ⟨hsame,hnot⟩ | ⟨c,rfl,hedit,rfl⟩
    · obtain ⟨expiry,hentry⟩ := entry_of_cached hcached
      exact .inl (hcache s expiry hentry)
    · exact .inl (hrow s hr)
    · refine .inl ((hcopy s hsame).resolve_right fun hharmless => ?_)
      rcases harmless_cases hharmless with ⟨c,rfl⟩ | ⟨c,t,rfl,rfl⟩
      · exact hnot c rfl
      · exact hcreate c t rfl rfl
    · exact edit_inactive (hcopy c rfl) hedit
end

theorem dropped_frame {task : Task} {id : String} (h : dropped task=some id) :
    ∃ frame, task.frame=some frame ∧ frame.call = .close id := by
  unfold dropped at h
  split at h
  · cases h
    exact ⟨_,rfl,rfl⟩
  · cases h
    exact ⟨_,rfl,rfl⟩
  · cases h
    exact ⟨_,rfl,rfl⟩
  · cases h

/- At the moment when a close takes its session out of the cache, no get has an active copy of
   it on the way there. -/
def Orderly (w : Watch τ) : Event τ → Prop
  | .resume t _ => ∀ frame s, w.threads.task t = .inside frame (.evicting s) →
    ∀ t' id caller c, w.threads.task t' = .inside ⟨.get id,caller⟩ (.filling c) →
      id=target frame.call → c.active=false
  | _ => True

structure Inv (w : Watch τ) : Prop where
  locks : Locks w.threads
  keys : Keys w.threads
  saving : ∀ t frame s id, w.threads.task t = .inside frame (.saving s) → frame.call = .close id →
    s.active=false
  evicting : ∀ t frame s, w.threads.task t = .inside frame (.evicting s) → s.active=false ∧
    ∀ c, w.threads.manager.pg.row (target frame.call)=some c → c.active=false
  dead : ∀ id, Doomed w id → Dead w.threads id

section
variable {call : Call} {now : Supervisor.Instant} {m m' : Manager} {stage : Stage} {s : Session}

theorem inactive_of_saving (hfits : Fits call stage) {id : String} (hclose : call = .close id)
    (h : Does call now m stage m' (.go (.saving s))) : s.active=false := by
  subst hclose
  generalize hr : Next.go (Stage.saving s)=r at h
  cases h with
  | edited c t hedit =>
    obtain rfl := Option.some.inj (Except.ok.inj hedit)
    cases hr
    rfl
  | recorded c pg hpg =>
    obtain ⟨_,_,_,hmigrate⟩ := hfits
    cases hmigrate
  | saved | cached => cases hr
  | _ => cases hr

/-- Before a close turns to the cache it has saved its session. -/
theorem saved_of_evicting (hown : Owns call stage) (h : Does call now m stage m' (.go (.evicting s))) :
    stage = .saving s ∧ (∃ id, call = .close id) ∧
      ∀ c, m'.pg.row (target call)=some c → c.active=s.active := by
  generalize hr : Next.go (Stage.evicting s)=r at h
  cases h with
  | saved c pg hpg =>
    cases call with
    | close id =>
      cases hr
      refine ⟨rfl,⟨id,rfl⟩,fun t ht => ?_⟩
      rw [Manager.withStore_pg,Store.row_saveSession hpg,if_pos (hown s rfl).1.symm] at ht
      rw [← Option.some.inj ht,m.pg.stored_active]
    | _ => cases hr
  | edited c t hedit =>
    cases call <;> cases hr
  | cached c =>
    cases call <;> cases hr
  | _ => cases hr
end

section
variable {w : Watch τ} {t t' : τ} {frame frame' : Frame} {stage stage' : Stage} {m : Manager}
  {result : Except SessionError Session} {s : Session} {id : String} {order : List Session}

theorem noted_between {e : Event τ} (h : Between w.threads e) : w.noted e=w.closed := by
  cases e with
  | resume t order =>
    have hframe := h t order rfl
    rw [Watch.noted]
    cases htask : w.threads.task t with
    | inside frame stage => rw [htask] at hframe; cases hframe
    | leaving frame result => rw [htask] at hframe; cases hframe
    | _ => rfl
  | _ => rfl

/-- Inside a call nothing is noted as closed. -/
theorem closed_of_note_inside {closed : String → Bool} (h : note closed (.inside frame stage) id=true) :
    closed id=true := by
  obtain ⟨call,caller⟩ := frame
  cases call with
  | create c =>
    cases stage with
    | saving s =>
      rw [note,update_apply] at h
      split_ifs at h
      exact h
    | _ => exact h
  | _ => exact h

/-- What is noted at a return was dropped by the close that returns. -/
theorem closed_of_note_leaving {closed : String → Bool}
    (h : note closed (.leaving frame result) id=true) :
    closed id=true ∨ dropped (.leaving frame result)=some id := by
  obtain ⟨call,caller⟩ := frame
  cases call with
  | close id' =>
    cases result with
    | error e => exact .inl h
    | ok s =>
      rw [note,update_apply] at h
      split_ifs at h with hid
      · exact .inr (by rw [hid]; rfl)
      · exact .inl h
  | _ => exact .inl h

theorem dropped_of_go (h : Does frame.call w.threads.now w.threads.manager stage m (.go stage'))
    (hdropped : dropped (.inside frame stage')=some id) :
    dropped (.inside frame stage)=some id ∨ ∃ s, stage = .evicting s := by
  obtain ⟨call,caller⟩ := frame
  generalize hr : Next.go stage'=r at h
  cases h with
  | evicted s => exact .inr ⟨s,rfl⟩
  | delisted s =>
    cases hr
    cases call with
    | close id' => exact .inl hdropped
    | _ => cases hdropped
  | saved s pg hpg => cases call <;> (cases hr; cases hdropped)
  | edited s c hedit => cases call <;> (cases hr; cases hdropped)
  | _ => cases call <;> cases hr <;> cases hdropped

theorem dropped_of_done (hfits : Fits frame.call stage)
    (h : Does frame.call w.threads.now w.threads.manager stage m (.done result))
    (hdropped : dropped (.leaving frame result)=some id) :
    dropped (.inside frame stage)=some id := by
  obtain ⟨call,caller⟩ := frame
  cases call with
  | close id' =>
    cases result with
    | error e => cases hdropped
    | ok s =>
      generalize hr : Next.done (.ok s)=r at h
      cases h with
      | deleted c pg hpg => exact hdropped
      | kept c hedit => cases hedit
      | cached c => exact absurd rfl (hfits.2 id')
      | expired c =>
        obtain ⟨c,hc⟩ := hfits
        cases hc
      | _ => cases hr
  | _ => cases hdropped

/-- A call without the lock has a copy on the way to the cache or to its client. -/
theorem get_copy (hfits : Fits frame.call stage) (hl : locked frame.call=false)
    (hs : stage.copy=some s) : (∃ id, frame.call = .get id) ∧ (stage = .filling s ∨ stage = .working s) := by
  cases hcall : frame.call with
  | get id =>
    refine ⟨⟨id,rfl⟩,?_⟩
    rw [hcall] at hfits
    cases stage with
    | filling c => exact .inl (congrArg Stage.filling (Option.some.inj hs))
    | working c => exact .inr (congrArg Stage.working (Option.some.inj hs))
    | reading => cases hs
    | loading => cases hs
    | saving c => cases hfits
    | caching c => cases hfits.1
    | recording c => obtain ⟨_,_,_,hc⟩ := hfits; cases hc
    | counting c => obtain ⟨_,_,_,hc⟩ := hfits; cases hc
    | adding c => obtain ⟨_,hc⟩ := hfits; cases hc
    | expiring c => obtain ⟨_,hc⟩ := hfits; cases hc
    | evicting c => obtain ⟨_,hc⟩ := hfits; cases hc
    | delisting c => obtain ⟨_,hc⟩ := hfits; cases hc
    | deleting c => obtain ⟨_,hc⟩ := hfits; cases hc
  | _ =>
    rw [hcall] at hl
    cases hl

/-- No other thread undoes what a close has saved. -/
theorem Inv.evicting_other (hw : Inv w) {r : Next} (htask : w.threads.task t = .inside frame stage)
    (hdoes : Does frame.call w.threads.now w.threads.manager stage m r) (hne : t'≠t)
    (htask' : w.threads.task t' = .inside frame' (.evicting s)) :
    s.active=false ∧ ∀ c, m.pg.row (target frame'.call)=some c → c.active=false := by
  obtain ⟨hown,hfits⟩ := hw.keys.copies t frame stage htask
  obtain ⟨hs,hrow⟩ := hw.evicting t' frame' s htask'
  obtain ⟨id,hclose⟩ := (hw.keys.copies t' frame' _ htask').2
  refine ⟨hs,fun c hc => ?_⟩
  by_cases hid : target frame'.call=target frame.call
  · rw [hid] at hc hrow
    rcases hdoes.row hown hc with ⟨old,hold,hactive⟩ | ⟨saved,rfl,-⟩
    · rw [← hactive]
      exact hrow old hold
    · refine absurd ?_ hne
      exact hw.locks.unique (by rw [htask']; rfl) (by rw [htask]; rfl) (by rw [hclose]; rfl) hfits hid
  · rw [(hdoes.local hown _ hid).2] at hc
    exact hrow c hc

variable [DecidableEq τ]

/-- A session is newly doomed only by a close that turns to the cache. -/
theorem doomed_of_go (htask : w.threads.task t = .inside frame stage)
    (hdoes : Does frame.call w.threads.now w.threads.manager stage m (.go stage'))
    (hdoom : Doomed (⟨(w.threads.withManager m).become t (.inside frame stage'),
      w.noted (.resume t order)⟩ : Watch τ) id) :
    Doomed w id ∨ frame.call = .close id ∧ ∃ s, stage = .evicting s := by
  rcases hdoom with hclosed | ⟨t',ht'⟩
  · rw [Watch.noted,htask] at hclosed
    exact .inl (.inl (closed_of_note_inside hclosed))
  · rw [task_become] at ht'
    split_ifs at ht' with ht
    · rcases dropped_of_go hdoes ht' with hold | hevicting
      · exact .inl (.inr ⟨t,by rw [htask,hold]⟩)
      · obtain ⟨frame',hframe,hclose⟩ := dropped_frame ht'
        cases hframe
        exact .inr ⟨hclose,hevicting⟩
    · exact .inl (.inr ⟨t',ht'⟩)

variable {after : Task}

/-- What is dead stays dead, but for a creation. -/
theorem Dead.request (hdead : Dead w.threads id) (hkeys : Keys w.threads) {r : Next}
    (htask : w.threads.task t = .inside frame stage)
    (hdoes : Does frame.call w.threads.now w.threads.manager stage m r)
    (hcreate : ∀ c s, frame.call = .create c → stage = .saving s → id≠c.id)
    (hafter : ∀ frame' stage', after = .inside frame' stage' → frame'=frame ∧ r = .go stage') :
    Dead ((w.threads.withManager m).become t after) id := by
  have hown := (hkeys.copies t frame stage htask).1
  by_cases hid : id=target frame.call
  · subst hid
    obtain ⟨hcache,hrow,hcopies⟩ := quiet_does hdoes hown hdead.cache hdead.row
      (fun s hs => hdead.copies t frame stage s htask rfl hs) (fun c s hc hs => hcreate c s hc hs (by rw [hc]; rfl))
    refine ⟨hcache,hrow,fun t' frame' stage₁ s htask' htarget hs => ?_⟩
    rw [task_become] at htask'
    split_ifs at htask'
    · obtain ⟨rfl,rfl⟩ := hafter frame' stage₁ htask'
      exact hcopies stage₁ s rfl hs
    · exact hdead.copies t' frame' stage₁ s htask' htarget hs
  · have hlocal := hdoes.local hown id hid
    refine ⟨fun s expiry hs => hdead.cache s expiry (hlocal.1 ▸ hs),
      fun s hs => hdead.row s (hlocal.2 ▸ hs),fun t' frame' stage₁ s htask' htarget hs => ?_⟩
    rw [task_become] at htask'
    split_ifs at htask'
    · obtain ⟨rfl,-⟩ := hafter frame' stage₁ htask'
      exact absurd htarget.symm hid
    · exact hdead.copies t' frame' stage₁ s htask' htarget hs

/-- A close that has taken its session out of the cache leaves nobody with an active copy. -/
theorem Inv.dead_of_evicting (hw : Inv w) (htask : w.threads.task t = .inside frame (.evicting s))
    (hdoes : Does frame.call w.threads.now w.threads.manager (.evicting s) m (.go stage'))
    (horder : Orderly w (.resume t order)) :
    Dead ((w.threads.withManager m).become t (.inside frame stage')) (target frame.call) := by
  obtain ⟨hs,hrow⟩ := hw.evicting t frame s htask
  obtain ⟨id,hclose⟩ := (hw.keys.copies t frame _ htask).2
  cases hdoes with
  | evicted =>
    have hpg : (w.threads.manager.tell true fun r => r.del (target frame.call)).pg =
        w.threads.manager.pg := Manager.tell_pg ..
    refine ⟨fun c expiry hc => ?_,fun c hc => hrow c (by rw [← hpg]; exact hc),
      fun t' frame' stage₁ c htask' htarget hc => ?_⟩
    · have hnone : (w.threads.manager.tell true fun r => r.del (target frame.call)).entry
          (target frame.call)=none := by
        rw [Manager.entry_tell_del,if_pos ⟨rfl,rfl⟩]
      cases hnone.symm.trans hc
    · rw [task_become] at htask'
      split_ifs at htask' with ht
      · cases htask'
        cases hc
        exact .inl hs
      · change w.threads.task t'=_ at htask'
        cases hl : locked frame'.call with
        | true =>
          refine absurd ?_ ht
          exact hw.locks.unique (by rw [htask']; rfl) (by rw [htask]; rfl) hl (by rw [hclose]; rfl) htarget
        | false =>
          obtain ⟨⟨id',hget⟩,rfl | rfl⟩ := get_copy (hw.keys.copies t' frame' _ htask').2 hl hc
          · obtain ⟨call,caller⟩ := frame'
            obtain rfl : call = .get id' := hget
            exact .inl (horder frame s htask t' id' caller c htask' htarget)
          · exact .inr (by rw [hget]; rfl)

theorem Inv.dead_go (hw : Inv w) (htask : w.threads.task t = .inside frame stage)
    (hdoes : Does frame.call w.threads.now w.threads.manager stage m (.go stage'))
    (horder : Orderly w (.resume t order))
    (hdoom : Doomed (⟨(w.threads.withManager m).become t (.inside frame stage'),
      w.noted (.resume t order)⟩ : Watch τ) id) :
    Dead ((w.threads.withManager m).become t (.inside frame stage')) id := by
  rcases doomed_of_go htask hdoes hdoom with hold | ⟨hclose,s,rfl⟩
  · refine (hw.dead id hold).request hw.keys htask hdoes (fun c s hcall hstage hid => ?_) ?_
    · -- A session that is saved anew is not doomed any more: its lock keeps a close away.
      subst hid hstage
      rcases hdoom with hclosed | ⟨t',ht'⟩
      · obtain ⟨call,caller⟩ := frame
        obtain rfl : call = .create c := hcall
        rw [Watch.noted,htask] at hclosed
        have hopen : update w.closed c.id false c.id=true := hclosed
        rw [update_self] at hopen
        cases hopen
      · rw [task_become] at ht'
        split_ifs at ht' with ht
        · obtain ⟨frame',hframe,hclose⟩ := dropped_frame ht'
          cases hframe
          rw [hcall] at hclose
          cases hclose
        · obtain ⟨frame',hframe,hclose⟩ := dropped_frame ht'
          refine ht (hw.locks.unique hframe (by rw [htask]; rfl) (by rw [hclose]; rfl)
            (by rw [hcall]; rfl) (by rw [hclose,hcall]; rfl))
    · rintro frame' stage₁ ⟨⟩
      exact ⟨rfl,rfl⟩
  · have hdead := hw.dead_of_evicting htask hdoes horder
    rw [hclose] at hdead
    exact hdead

theorem Inv.go (hw : Inv w) (htask : w.threads.task t = .inside frame stage)
    (hdoes : Does frame.call w.threads.now w.threads.manager stage m (.go stage'))
    (horder : Orderly w (.resume t order)) :
    Inv (⟨(w.threads.withManager m).become t (.inside frame stage'),
      w.noted (.resume t order)⟩ : Watch τ) where
  locks := hw.locks.move (.go t order frame stage stage' m htask hdoes)
  keys := hw.keys.move (.go t order frame stage stage' m htask hdoes)
  saving t' frame' s id htask' hclose := by
    rw [task_become] at htask'
    split_ifs at htask' with ht
    · cases htask'
      exact inactive_of_saving (hw.keys.copies t frame stage htask).2 hclose hdoes
    · exact hw.saving t' frame' s id htask' hclose
  evicting t' frame' s htask' := by
    rw [task_become] at htask'
    split_ifs at htask' with ht
    · cases htask'
      obtain ⟨rfl,⟨id,hclose⟩,hrow⟩ := saved_of_evicting (hw.keys.copies t frame stage htask).1 hdoes
      have hs := hw.saving t frame s id htask hclose
      exact ⟨hs,fun c hc => (hrow c hc).trans hs⟩
    · exact hw.evicting_other htask hdoes ht htask'
  dead id hdoom := hw.dead_go htask hdoes horder hdoom

theorem harmless_first {call : Call} (hs : (Stage.first call).copy=some s) :
    harmless call (.first call)=true := by
  cases call with
  | create c => rfl
  | _ => cases hs

theorem Inv.still (hw : Inv w) {w' : Watch τ} (hlocks : Locks w'.threads)
    (hkeys : Keys w'.threads) (hm : w'.threads.manager=w.threads.manager)
    (htasks : w'.threads.task=update w.threads.task t after)
    (hafter : ∀ frame stage, after = .inside frame stage → stage = .first frame.call)
    (hdoom : ∀ id, Doomed w' id → Doomed w id) : Inv w' where
  locks := hlocks
  keys := hkeys
  saving t' frame' s id htask' hclose := by
    rw [htasks,update_apply] at htask'
    split_ifs at htask'
    · have hfirst := hafter frame' _ htask'
      rw [hclose] at hfirst
      cases hfirst
    · exact hw.saving t' frame' s id htask' hclose
  evicting t' frame' s htask' := by
    rw [htasks,update_apply] at htask'
    split_ifs at htask'
    · have hfirst := hafter frame' _ htask'
      cases hcall : frame'.call <;> (rw [hcall] at hfirst; cases hfirst)
    · rw [hm]
      exact hw.evicting t' frame' s htask'
  dead id hid := by
    have hdead := hw.dead id (hdoom id hid)
    refine ⟨by rw [hm]; exact hdead.cache,by rw [hm]; exact hdead.row,?_⟩
    intro t' frame' stage s htask' htarget hs
    rw [htasks,update_apply] at htask'
    split_ifs at htask'
    · obtain rfl := hafter frame' stage htask'
      exact .inr (harmless_first hs)
    · exact hdead.copies t' frame' stage s htask' htarget hs

/-- A session is doomed after such a step only if it was before. -/
theorem doomed_of_still {w' : Watch τ}
    (htasks : w'.threads.task=update w.threads.task t after)
    (hafter : dropped after=none) (hclosed : w'.closed=w.closed) (hdoom : Doomed w' id) :
    Doomed w id := by
  rcases hdoom with h | ⟨t',ht'⟩
  · exact .inl (hclosed ▸ h)
  · rw [htasks,update_apply] at ht'
    split_ifs at ht'
    · rw [hafter] at ht'
      cases ht'
    · exact .inr ⟨t',ht'⟩

theorem dropped_of_frame {task : Task} (h : task.frame=none) : dropped task=none := by
  cases hd : dropped task with
  | none => rfl
  | some id =>
    obtain ⟨frame,hframe,-⟩ := dropped_frame hd
    rw [h] at hframe
    cases hframe

theorem dropped_first (frame : Frame) : dropped (.inside frame (.first frame.call))=none := by
  obtain ⟨call,caller⟩ := frame
  cases call <;> rfl

theorem Inv.done (hw : Inv w) (htask : w.threads.task t = .inside frame stage)
    (hdoes : Does frame.call w.threads.now w.threads.manager stage m (.done result)) :
    Inv (⟨(w.threads.withManager m).become t (.leaving frame result),
      w.noted (.resume t order)⟩ : Watch τ) where
  locks := hw.locks.move (.done t order frame stage m result htask hdoes)
  keys := hw.keys.move (.done t order frame stage m result htask hdoes)
  saving t' frame' s id htask' hclose := by
    rw [task_become] at htask'
    split_ifs at htask' with ht
    exact hw.saving t' frame' s id htask' hclose
  evicting t' frame' s htask' := by
    rw [task_become] at htask'
    split_ifs at htask' with ht
    exact hw.evicting_other htask hdoes ht htask'
  dead id hdoom := by
    have hold : Doomed w id := by
      rcases hdoom with hclosed | ⟨t',ht'⟩
      · rw [Watch.noted,htask] at hclosed
        exact .inl (closed_of_note_inside hclosed)
      · rw [task_become] at ht'
        split_ifs at ht' with ht
        · refine .inr ⟨t,?_⟩
          rw [htask]
          exact dropped_of_done (hw.keys.copies t frame stage htask).2 hdoes ht'
        · exact .inr ⟨t',ht'⟩
    have hdead := hw.dead id hold
    by_cases hsave : ∃ s, stage = .saving s
    · -- A save that ends a call has failed.
      obtain ⟨s,rfl⟩ := hsave
      cases hdoes with
      | unsaved =>
        refine ⟨hdead.cache,hdead.row,fun t' frame' stage₁ c htask' => ?_⟩
        rw [task_become] at htask'
        split_ifs at htask'
        exact hdead.copies t' frame' stage₁ c htask'
    · refine hdead.request hw.keys htask hdoes (fun c s _ hs => absurd ⟨s,hs⟩ hsave) ?_
      rintro frame' stage₁ ⟨⟩

theorem Inv.leave (hw : Inv w) (htask : w.threads.task t = .leaving frame result) :
    Inv (⟨(w.threads.release frame).become t (frame.caller.resume result),
      w.noted (.resume t order)⟩ : Watch τ) := by
  have htasks : ((w.threads.release frame).become t (frame.caller.resume result)).task =
      update w.threads.task t (frame.caller.resume result) := by
    rw [Threads.become,task_release]
  refine hw.still (hw.locks.move (.leave t order frame result htask))
    (hw.keys.move (.leave t order frame result htask)) (manager_release w.threads frame) htasks
    (fun frame' stage hafter => ?_) fun id hdoom => ?_
  · have hnone := frame_resume frame.caller result
    rw [hafter] at hnone
    cases hnone
  · rcases hdoom with hclosed | ⟨t',ht'⟩
    · rw [Watch.noted,htask] at hclosed
      rcases closed_of_note_leaving hclosed with hold | hdropped
      · exact .inl hold
      · exact .inr ⟨t,by rw [htask,hdropped]⟩
    · rw [htasks,update_apply] at ht'
      split_ifs at ht'
      · rw [dropped_of_frame (frame_resume _ _)] at ht'
        cases ht'
      · exact .inr ⟨t',ht'⟩

theorem Inv.handle (hw : Inv w) {e : Event τ} (horder : Orderly w e) : Inv (w.handle e) := by
  rw [Watch.handle]
  have hmove := move_handle w.threads e
  generalize w.threads.handle e=threads' at hmove ⊢
  have hlocks := hw.locks.move hmove
  have hkeys := hw.keys.move hmove
  cases hmove with
  | stay e hbetween hstarts =>
    rw [noted_between hbetween]
    exact hw
  | tick d =>
    refine ⟨hlocks,hkeys,hw.saving,hw.evicting,fun id hid => ?_⟩
    have hdead := hw.dead id hid
    exact ⟨hdead.cache,hdead.row,hdead.copies⟩
  | outside e t after hbetween houtside =>
    refine hw.still hlocks hkeys rfl rfl (fun frame stage hafter => ?_) fun id =>
      doomed_of_still rfl (dropped_of_frame houtside.frames.2) (noted_between hbetween)
    have hnone := houtside.frames.2
    rw [hafter] at hnone
    cases hnone
  | free t before call htask hfree =>
    refine hw.still hlocks hkeys rfl rfl (fun frame stage hafter => ?_) fun id =>
      doomed_of_still rfl (dropped_first _) rfl
    cases hafter
    rfl
  | enter t order frame htask hholder =>
    have hbetween : Between w.threads (.resume t order) := between_resume (by rw [htask]; rfl)
    refine hw.still hlocks hkeys rfl rfl (fun frame stage hafter => ?_) fun id =>
      doomed_of_still rfl (dropped_first _) (noted_between hbetween)
    cases hafter
    rfl
  | go t order frame stage stage' m htask hdoes => exact hw.go htask hdoes horder
  | done t order frame stage m result htask hdoes => exact hw.done htask hdoes
  | leave t order frame result htask => exact hw.leave htask
end

theorem Inv.start {m : Manager} (hm : Keyed m) (now : Supervisor.Instant) : Inv (.start m now : Watch τ) where
  locks := by rintro _ _ ⟨⟩
  keys := .start hm now
  saving := by rintro _ _ _ _ ⟨⟩
  evicting := by rintro _ _ _ ⟨⟩
  dead := by
    rintro id (hclosed | ⟨t,ht⟩)
    · cases hclosed
    · cases ht

/-- Closed sessions stay closed, as long as no get carries an active copy past the close. -/
theorem closed_stays_closed [DecidableEq τ] {m : Manager} (hm : Keyed m) {now : Supervisor.Instant}
    {events : List (Event τ)} {w : Watch τ}
    (hrun : Run (Guarded Orderly Watch.handle) (.start m now) events w)
    {id : String} (hclosed : w.closed id=true) :
    (∀ s, w.threads.manager.cached .healthy w.threads.now id=some s → s.active=false) ∧
      ∀ s, w.threads.manager.pg.row id=some s → s.active=false := by
  have hstep : ∀ (w : Watch τ) (e : Event τ) (w' : Watch τ), Inv w → Guarded Orderly Watch.handle w e w' →
      Inv w' := by
    rintro w e w' hw ⟨horder,rfl⟩
    exact hw.handle horder
  have hdead := (hrun.invariant (.start hm now) hstep).dead id (.inl hclosed)
  refine ⟨fun s hs => ?_,hdead.row⟩
  obtain ⟨expiry,hentry⟩ := entry_of_cached hs
  exact hdead.cache s expiry hentry

theorem orderly_alone (w : Watch Unit) (e : Event Unit) : Orderly w e := by
  cases e with
  | resume t order =>
    intro frame s htask t' id caller c htask'
    rw [show t'=t from rfl,htask] at htask'
    cases htask'
  | _ => trivial

theorem run_alone (m : Manager) (now : Supervisor.Instant) (events : List (Event Unit)) :
    Run (Guarded Orderly Watch.handle) (.start m now) events ((Watch.start m now).run events) :=
  (run_foldl Watch.handle events _).mono fun w e _ h => ⟨orderly_alone w e,h⟩

def empty : Manager := ⟨some .empty,.empty .memory⟩

theorem keyed_empty : Keyed empty := by
  intro id s expiry h
  cases h

/- A session is created, read, closed, and then asked for again. -/
def lifetime : List (Event Unit) :=
  [calling () (.create SessionCache.device) 7,calling () (.close "s1") 10,
    calling () (.heartbeat "s1" 1 1) 4].flatten

theorem closed_stays_closed_lifetime :
    ((Watch.start empty 0).run lifetime).closed "s1" = true ∧
      ∀ s, ((Watch.start empty 0).run lifetime).threads.manager.pg.row "s1" = some s →
        s.active=false :=
  have hclosed : ((Watch.start empty 0).run lifetime).closed "s1" = true := by decide +kernel
  ⟨hclosed,(closed_stays_closed keyed_empty (run_alone empty 0 lifetime) hclosed).2⟩

def isIdle : Task → Bool
  | .idle _ => true
  | _ => false

/- The first thread reads the row of a session. The second closes the session. The first puts
   what it has read into the cache, where a heartbeat finds it. -/
def revival : List (Event Bool) :=
  [calling true (.create SessionCache.device) 7,[.tick (cacheTtl+1)],calling false (.get "s1") 2,
    calling true (.close "s1") 10,running false 3,calling true (.heartbeat "s1" 1 1) 7].flatten

/-- All calls have returned, and the closed session is active in the store. -/
theorem closed_session_revived : ¬ ∀ (m : Manager) (now : Supervisor.Instant)
    (events : List (Event Bool)) (id : String), Keyed m →
    (∀ t, isIdle (((Watch.start m now).run events).threads.task t)=true) →
    ((Watch.start m now : Watch Bool).run events).closed id=true →
    ∀ s, ((Watch.start m now : Watch Bool).run events).threads.manager.pg.row id=some s →
      s.active=false := by
  intro h
  have hidle : ∀ t, isIdle (((Watch.start empty 0).run revival).threads.task t)=true := by
    decide +kernel
  have hclosed : ((Watch.start empty 0 : Watch Bool).run revival).closed "s1" = true := by
    decide +kernel
  have hrow : (((Watch.start empty 0 : Watch Bool).run revival).threads.manager.pg.row "s1").map
      Session.active=some true := by
    decide +kernel
  obtain ⟨s,hs,hactive⟩ := Option.map_eq_some_iff.mp hrow
  rw [h empty 0 revival "s1" keyed_empty hidle hclosed s hs] at hactive
  cases hactive

end AetherX.SessionClosing
