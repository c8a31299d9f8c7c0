import AetherX.SpoolAgreement

/-! Threads on one disk-backed queue. A call updates memory in one critical section
and writes the file in a later one, and other threads may run in between. -/
namespace AetherX.SpoolThreads
open StoreAndForward QueueAccounting SpoolAgreement Machine List
variable {τ : Type*} [DecidableEq τ]

/- What a thread still has to do before its call returns. -/
inductive Phase where
  | idle
  | mustAppend (id : Nat)
  | mustRewrite
  deriving DecidableEq

structure System (τ : Type*) where
  queue : Queue
  phase : τ → Phase

inductive Event (τ : Type*) where
  | enqueue (t : τ) (priority : Priority) (data : Bytes)
  | flush (t : τ)
  | write (t : τ)

def System.become (s : System τ) (q : Queue) (t : τ) (phase : Phase) : System τ :=
  ⟨q,Function.update s.phase t phase⟩

/-- One critical section of one thread; no file write fails. -/
inductive Section (codec : Codec) : System τ → Event τ → System τ → Prop
  | refused {s : System τ} {t : τ} {priority : Priority} {data : Bytes} {g : Inner}
      {e : EnqueueError} : s.phase t = .idle →
      s.queue.inner.enqueueLocked s.queue.limits priority data=(g, .error e) →
      Section codec s (.enqueue t priority data) (s.become { s.queue with inner := g } t .idle)
  | accepted {s : System τ} {t : τ} {priority : Priority} {data : Bytes} {g : Inner} {id : Nat}
      {compactNeeded : Bool} : s.phase t = .idle →
      s.queue.inner.enqueueLocked s.queue.limits priority data=(g, .ok (id, compactNeeded)) →
      Section codec s (.enqueue t priority data) (s.become { s.queue with inner := g } t
        (if compactNeeded then .mustRewrite else .mustAppend id))
  | flush {s : System τ} {t : τ} : s.phase t = .idle →
      Section codec s (.flush t)
        (s.become { s.queue with inner := s.queue.inner.drainLocked.1 } t .mustRewrite)
  | append {s : System τ} {t : τ} {id : Nat} : s.phase t = .mustAppend id →
      Section codec s (.write t) (s.become (s.queue.appendSpool codec .done id) t .idle)
  | rewrite {s : System τ} {t : τ} : s.phase t = .mustRewrite →
      Section codec s (.write t) (s.become (s.queue.rewriteSpool codec .done) t .idle)

def System.Quiet (s : System τ) : Prop := ∀ t, s.phase t = .idle

/-- The file has every pending item once and nothing else, each lane in order. -/
def FileAgrees (codec : Codec) (q : Queue) : Prop :=
  ∃ file seals items, q.spool=some ⟨some file,seals⟩ ∧ codec.parseSpool file = .ok items ∧
    laneOf .control items=q.inner.control ∧ laneOf .bulk items=q.inner.bulk

def Owes (s : System τ) (id : Nat) : Prop := ∃ t, s.phase t = .mustAppend id

def pending (s : System τ) : List QueuedItem := s.queue.inner.control++s.queue.inner.bulk

/- The order the threads would have to keep: a rewrite waits for the appends of pending items,
   an append for those of earlier items in its lane, and no refused call evicts. -/
def Orderly (s : System τ) : Event τ → Prop
  | .enqueue _ _ data => ¬ EvictsInVain s.queue.limits s.queue.inner data
  | .flush _ => True
  | .write t =>
    match s.phase t with
    | .idle => True
    | .mustAppend id => ∀ x∈pending s, ∀ y∈pending s, y.id=id → x.priority=y.priority →
        x.id < id → ¬ Owes s x.id
    | .mustRewrite => ∀ x∈pending s, ¬ Owes s x.id

def lane (g : Inner) : Priority → List QueuedItem
  | .control => g.control
  | .bulk => g.bulk

omit [DecidableEq τ] in
theorem mem_pending {s : System τ} {priority : Priority} {x : QueuedItem}
    (hx : x∈lane s.queue.inner priority) : x∈pending s := by
  cases priority with
  | control => exact mem_append_left _ hx
  | bulk => exact mem_append_right _ hx

theorem lane_priority {limits : QueueLimits} {g : Inner} (hs : Sound limits g)
    {priority : Priority} {x : QueuedItem} (hx : x∈lane g priority) : x.priority=priority := by
  cases priority with
  | control => exact hs.control x hx
  | bulk => exact hs.bulk x hx

/- A lane whose written part is done and whose other items are owed, oldest first. -/
structure Behind (owes : Nat → Prop) (done owed : List QueuedItem) : Prop where
  written : ∀ x∈done, ¬ owes x.id
  missing : ∀ x∈owed, owes x.id
  ordered : owed.Pairwise fun x y => x.id < y.id

/- The file is a well-formed spool that lags behind memory by the owed appends alone. -/
def FileBehind (codec : Codec) (s : System τ) : Prop :=
  ∃ file seals items, s.queue.spool=some ⟨some file,seals⟩ ∧ Spooled codec file items ∧
    ∀ priority, ∃ owed, lane s.queue.inner priority=laneOf priority items++owed ∧
      Behind (Owes s) (laneOf priority items) owed

structure Inv (codec : Codec) (limits : QueueLimits) (s : System τ) : Prop where
  limits_eq : s.queue.limits=limits
  sound : Sound limits s.queue.inner
  spool : ∃ file seals, s.queue.spool=some ⟨some file,seals⟩
  owedBelow : ∀ id, Owes s id → id < s.queue.inner.nextId
  owedOnce : ∀ t t' id, s.phase t = .mustAppend id → s.phase t' = .mustAppend id → t=t'
  owedItem : ∀ id, Owes s id → ∀ x∈pending s, ∀ y∈pending s, x.id=id → y.id=id → x=y
  file : (∃ t, s.phase t = .mustRewrite) ∨ FileBehind codec s

omit [DecidableEq τ] in
theorem Inv.sound_queue {codec : Codec} {limits : QueueLimits} {s : System τ}
    (h : Inv codec limits s) : Sound s.queue.limits s.queue.inner := by
  rw [h.limits_eq]
  exact h.sound

section
variable {s : System τ} {q : Queue} {t : τ} {phase : Phase}

theorem owes_become {id : Nat} : Owes (s.become q t phase) id ↔
    phase = .mustAppend id ∨ ∃ t', t'≠t ∧ s.phase t' = .mustAppend id := by
  constructor
  · intro h
    obtain ⟨t',ht'⟩ := h
    by_cases he : t'=t
    · subst he
      exact .inl (by simpa [System.become] using ht')
    · exact .inr ⟨t',he,by simpa [System.become,he] using ht'⟩
  · intro h
    cases h with
    | inl hp => exact ⟨t,by simp [System.become,hp]⟩
    | inr ho =>
      obtain ⟨t',he,ht'⟩ := ho
      exact ⟨t',by simp [System.become,he,ht']⟩

/- A thread that was idle owes nothing that could be forgotten. -/
theorem owes_become_of_idle (hidle : s.phase t = .idle) {id : Nat} :
    Owes (s.become q t phase) id ↔ phase = .mustAppend id ∨ Owes s id := by
  rw [owes_become]
  apply or_congr_right
  constructor
  · intro h
    obtain ⟨t',-,ht'⟩ := h
    exact ⟨t',ht'⟩
  · intro h
    obtain ⟨t',ht'⟩ := h
    refine ⟨t',?_,ht'⟩
    intro he
    rw [he,hidle] at ht'
    cases ht'

theorem owes_of_become_idle {id : Nat} (h : Owes (s.become q t .idle) id) : Owes s id := by
  cases owes_become.mp h with
  | inl hp => cases hp
  | inr ho =>
    obtain ⟨t',-,ht'⟩ := ho
    exact ⟨t',ht'⟩
end

section
variable {codec : Codec} {limits : QueueLimits} {s : System τ} {t : τ}

variable {q : Queue} {data : Bytes} {id : Nat} {y : QueuedItem}

theorem rewriting_become {phase : Phase} (hne : s.phase t ≠ .mustRewrite)
    (h : ∃ t', s.phase t' = .mustRewrite) : ∃ t', (s.become q t phase).phase t' = .mustRewrite := by
  obtain ⟨t',ht'⟩ := h
  have he : t'≠t := fun he => hne (he ▸ ht')
  exact ⟨t',by simp [System.become,he,ht']⟩

theorem owedOnce_become (q : Queue) (t : τ) (phase : Phase)
    (h : ∀ t t' id, s.phase t = .mustAppend id → s.phase t' = .mustAppend id → t=t')
    (hnew : ∀ id, phase = .mustAppend id → ¬ Owes s id) :
    ∀ u u' id, (s.become q t phase).phase u = .mustAppend id →
      (s.become q t phase).phase u' = .mustAppend id → u=u' := by
  intro u u' id hu hu'
  by_cases h₁ : u=t <;> by_cases h₂ : u'=t
  · rw [h₁,h₂]
  · simp only [System.become,h₁,Function.update_self] at hu
    simp only [System.become,Function.update_of_ne h₂] at hu'
    exact absurd ⟨u',hu'⟩ (hnew id hu)
  · simp only [System.become,h₂,Function.update_self] at hu'
    simp only [System.become,Function.update_of_ne h₁] at hu
    exact absurd ⟨u,hu⟩ (hnew id hu')
  · simp only [System.become,Function.update_of_ne h₁] at hu
    simp only [System.become,Function.update_of_ne h₂] at hu'
    exact h u u' id hu hu'

theorem Inv.refused (h : Inv codec limits s) (hidle : s.phase t = .idle) :
    Inv codec limits (s.become { s.queue with inner := s.queue.inner.refuse } t .idle) := by
  have hphase : s.become { s.queue with inner := s.queue.inner.refuse } t .idle =
      ⟨{ s.queue with inner := s.queue.inner.refuse },s.phase⟩ := by
    rw [System.become,← hidle,Function.update_eq_self]
  rw [hphase]
  exact ⟨h.limits_eq,h.sound.refuse,h.spool,h.owedBelow,h.owedOnce,h.owedItem,h.file⟩

theorem Inv.flush (h : Inv codec limits s) (hidle : s.phase t = .idle) :
    Inv codec limits
      (s.become { s.queue with inner := s.queue.inner.drainLocked.1 } t .mustRewrite) := by
  refine ⟨h.limits_eq,h.sound.drainLocked,h.spool,?_,?_,?_,.inl ⟨t,by simp [System.become]⟩⟩
  · intro id hid
    cases (owes_become_of_idle hidle).mp hid with
    | inl hp => cases hp
    | inr ho => exact h.owedBelow id ho
  · exact owedOnce_become _ _ _ h.owedOnce fun id hp => by cases hp
  · intro id _ x hx
    cases hx

omit [DecidableEq τ] in
/- Old items keep their owed ids to themselves when a new item joins. -/
theorem owedItem_accept (h : Inv codec limits s) {k : Nat} {priority : Priority} (hid : Owes s id)
    {x : QueuedItem}
    (hx : x∈(accept s.queue.inner k priority data).control++(accept s.queue.inner k priority data).bulk)
    (hy : y∈(accept s.queue.inner k priority data).control++(accept s.queue.inner k priority data).bulk)
    (hxid : x.id=id) (hyid : y.id=id) : x=y := by
  have hold : ∀ z∈(accept s.queue.inner k priority data).control ++
      (accept s.queue.inner k priority data).bulk, z.id=id → z∈pending s := by
    intro z hz hzid
    cases mem_accept.mp hz with
    | inl hmem =>
      cases mem_append.mp hmem with
      | inl hc => exact mem_append_left _ hc
      | inr hb => exact mem_append_right _ (mem_of_mem_drop hb)
    | inr he =>
      have hlt := h.owedBelow id hid
      rw [← hzid,he] at hlt
      exact absurd hlt (Nat.lt_irrefl _)
  exact h.owedItem id hid x (hold x hx hxid) y (hold y hy hyid) hxid hyid

theorem Inv.accepted_rewrite (h : Inv codec limits s) (hidle : s.phase t = .idle) {k : Nat}
    (hk : k ≤ s.queue.inner.bulk.length) (priority : Priority)
    (hfull : ¬ (evictFirst s.queue.inner k).Full limits data.length) :
    Inv codec limits (s.become { s.queue with inner := accept s.queue.inner k priority data } t
      .mustRewrite) := by
  refine ⟨h.limits_eq,h.sound.accept hk priority data hfull,h.spool,?_,?_,?_,
    .inl ⟨t,by simp [System.become]⟩⟩
  · intro id hid
    cases (owes_become_of_idle hidle).mp hid with
    | inl hp => cases hp
    | inr ho =>
      have hlt := h.owedBelow id ho
      cases priority <;> exact Nat.lt_succ_of_lt hlt
  · exact owedOnce_become _ _ _ h.owedOnce fun id hp => by cases hp
  · intro id hid x hx y hy
    cases (owes_become_of_idle hidle).mp hid with
    | inl hp => cases hp
    | inr ho => exact owedItem_accept h ho hx hy

theorem lane_accept (g : Inner) (priority : Priority) (data : Bytes) (p : Priority) :
    lane (accept g 0 priority data) p =
      lane g p++if p=priority then [⟨g.nextId,priority,data⟩] else [] := by
  cases priority <;> cases p <;> simp [accept,evictFirst_zero,Inner.push,lane]

theorem lane_ids {g : Inner} (hs : Sound limits g) {p : Priority} {x : QueuedItem}
    (hx : x∈lane g p) : x.id < g.nextId := by
  cases p with
  | control => exact hs.ids x (mem_append_left _ hx)
  | bulk => exact hs.ids x (mem_append_right _ hx)

/- The new item is owed, and the youngest of its lane. -/
theorem fileBehind_accept (h : Inv codec limits s) (hidle : s.phase t = .idle)
    (hfile : FileBehind codec s) (priority : Priority) (data : Bytes) :
    FileBehind codec (s.become { s.queue with inner := accept s.queue.inner 0 priority data } t
      (.mustAppend s.queue.inner.nextId)) := by
  obtain ⟨file,seals,items,hspool,hspooled,hlanes⟩ := hfile
  refine ⟨file,seals,items,hspool,hspooled,fun p => ?_⟩
  obtain ⟨owed,hlane,hbehind⟩ := hlanes p
  have hlt : ∀ x∈laneOf p items++owed, x.id < s.queue.inner.nextId := by
    intro x hx
    rw [← hlane] at hx
    exact lane_ids h.sound hx
  have hnew : ∀ x∈(if p=priority then [(⟨s.queue.inner.nextId,priority,data⟩ : QueuedItem)]
      else []), x.id=s.queue.inner.nextId := by
    intro x hx
    split_ifs at hx
    · rw [mem_singleton.mp hx]
    · cases hx
  refine ⟨owed++if p=priority then [⟨s.queue.inner.nextId,priority,data⟩] else [],?_,?_,?_,?_⟩
  · simp only [System.become]
    rw [lane_accept,hlane,append_assoc]
  · intro x hx howes
    cases (owes_become_of_idle hidle).mp howes with
    | inl hp =>
      have hid := Phase.mustAppend.inj hp
      exact absurd hid (Nat.ne_of_gt (hlt x (mem_append_left _ hx)))
    | inr ho => exact hbehind.written x hx ho
  · intro x hx
    apply (owes_become_of_idle hidle).mpr
    cases mem_append.mp hx with
    | inl ho => exact .inr (hbehind.missing x ho)
    | inr hn => exact .inl (by rw [hnew x hn])
  · rw [pairwise_append]
    refine ⟨hbehind.ordered,?_,?_⟩
    · split_ifs
      · exact pairwise_singleton _ _
      · exact List.Pairwise.nil
    · intro x hx y hy
      rw [hnew y hy]
      exact hlt x (mem_append_right _ hx)

theorem Inv.accepted_append (h : Inv codec limits s) (hidle : s.phase t = .idle)
    (priority : Priority) (hfull : ¬ (evictFirst s.queue.inner 0).Full limits data.length) :
    Inv codec limits (s.become { s.queue with inner := accept s.queue.inner 0 priority data } t
      (.mustAppend s.queue.inner.nextId)) := by
  have hnext : (accept s.queue.inner 0 priority data).nextId=s.queue.inner.nextId+1 := by
    cases priority <;> rfl
  refine ⟨h.limits_eq,h.sound.accept (Nat.zero_le _) priority data hfull,h.spool,?_,?_,?_,?_⟩
  · intro id hid
    simp only [System.become]
    rw [hnext]
    cases (owes_become_of_idle hidle).mp hid with
    | inl hp =>
      have hid := Phase.mustAppend.inj hp
      omega
    | inr ho => exact Nat.lt_succ_of_lt (h.owedBelow id ho)
  · apply owedOnce_become _ _ _ h.owedOnce
    intro id hp howes
    have hid := Phase.mustAppend.inj hp
    have hlt := h.owedBelow id howes
    omega
  · intro id hid x hx y hy hxid hyid
    cases (owes_become_of_idle hidle).mp hid with
    | inl hp =>
      have hid := Phase.mustAppend.inj hp
      have hnew : ∀ z∈(accept s.queue.inner 0 priority data).control ++
          (accept s.queue.inner 0 priority data).bulk, z.id=id →
            z=⟨s.queue.inner.nextId,priority,data⟩ := by
        intro z hz hzid
        cases mem_accept.mp hz with
        | inl hold =>
          have hlt := h.sound.ids z hold
          omega
        | inr he => exact he
      rw [hnew x hx hxid,hnew y hy hyid]
    | inr ho => exact owedItem_accept h ho hx hy hxid hyid
  · cases h.file with
    | inl hrw => exact .inl (rewriting_become (by simp [hidle]) hrw)
    | inr hfile => exact .inr (fileBehind_accept h hidle hfile priority data)

theorem owes_append (h : Inv codec limits s) (ht : s.phase t = .mustAppend id) {id' : Nat} : Owes (s.become q t .idle) id' ↔ Owes s id' ∧ id'≠id := by
  rw [owes_become]
  constructor
  · intro ho
    cases ho with
    | inl hp => cases hp
    | inr hother =>
      obtain ⟨t',hne,ht'⟩ := hother
      refine ⟨⟨t',ht'⟩,fun he => hne ?_⟩
      rw [he] at ht'
      exact h.owedOnce t' t id ht' ht
  · intro ho
    obtain ⟨⟨t',ht'⟩,hne⟩ := ho
    refine .inr ⟨t',fun he => hne ?_,ht'⟩
    rw [he,ht] at ht'
    exact (Phase.mustAppend.inj ht').symm

/- An owed item that no older owed item of its lane precedes is the first of its lane. -/
theorem Behind.head {owes : Nat → Prop} {done owed : List QueuedItem} (h : Behind owes done owed)
    (hy : y∈owed) (hfirst : ∀ x∈owed, x.id < y.id → ¬ owes x.id) :
    ∃ post, owed=y::post := by
  obtain ⟨pre,post,rfl⟩ := append_of_mem hy
  cases pre with
  | nil => exact ⟨post,rfl⟩
  | cons x pre =>
    have hx : x∈x::pre++y::post := mem_append_left _ mem_cons_self
    have hlt := (pairwise_append.mp h.ordered).2.2 x mem_cons_self y mem_cons_self
    exact absurd (h.missing x hx) (hfirst x hx hlt)

omit [DecidableEq τ] in
theorem mem_lane {limits : QueueLimits} (hs : Sound limits s.queue.inner) (hy : y∈pending s) : y∈lane s.queue.inner y.priority := by
  cases mem_append.mp hy with
  | inl hc =>
    rw [hs.control y hc]
    exact hc
  | inr hb =>
    rw [hs.bulk y hb]
    exact hb

/- The append of the oldest owed item of its lane brings the file one item closer. -/
theorem fileBehind_append (h : Inv codec limits s) (ht : s.phase t = .mustAppend y.id)
    (hy : y∈pending s)
    (hord : ∀ x∈pending s, x.priority=y.priority → x.id < y.id → ¬ Owes s x.id)
    {file line : Bytes} {seals : Nat} {items : List QueuedItem}
    (hspooled : Spooled codec file items)
    (hlanes : ∀ priority, ∃ owed, lane s.queue.inner priority=laneOf priority items++owed ∧ Behind (Owes s) (laneOf priority items) owed)
    (henc : Encodes codec line y) :
    FileBehind codec (s.become
      { s.queue with spool := some ⟨some (file++line++[newline]),seals⟩ } t .idle) := by
  refine ⟨_,seals,items++[y],rfl,spooled_append hspooled henc,fun p => ?_⟩
  obtain ⟨owed,hlane,hbehind⟩ := hlanes p
  have howed : ∀ x∈owed, x∈lane s.queue.inner p := by
    intro x hx
    rw [hlane]
    exact mem_append_right _ hx
  by_cases hp : y.priority=p
  · have hmem : y∈owed := by
      have hylane := mem_lane h.sound hy
      rw [hp,hlane] at hylane
      cases mem_append.mp hylane with
      | inl hdone => exact absurd ⟨t,ht⟩ (hbehind.written y hdone)
      | inr ho => exact ho
    obtain ⟨post,rfl⟩ := hbehind.head hmem fun x hx =>
      hord x (mem_pending (howed x hx)) ((lane_priority h.sound (howed x hx)).trans hp.symm)
    have hone : laneOf p [y]=[y] := laneOf_same (by simp [hp])
    refine ⟨post,?_,?_,?_,(pairwise_cons.mp hbehind.ordered).2⟩
    · simp only [System.become]
      rw [hlane,laneOf_append,hone,append_assoc]
      rfl
    · intro x hx howes
      obtain ⟨ho,hne⟩ := (owes_append h ht).mp howes
      rw [laneOf_append,hone] at hx
      cases mem_append.mp hx with
      | inl hdone => exact hbehind.written x hdone ho
      | inr he => exact hne (by rw [mem_singleton.mp he])
    · intro x hx
      have hlt := (pairwise_cons.mp hbehind.ordered).1 x hx
      exact (owes_append h ht).mpr ⟨hbehind.missing x (mem_cons_of_mem _ hx),by omega⟩
  · have hnone : laneOf p [y]=[] := laneOf_other hp (by simp)
    refine ⟨owed,?_,?_,?_,hbehind.ordered⟩
    · rw [laneOf_append,hnone,append_nil]
      exact hlane
    · intro x hx howes
      rw [laneOf_append,hnone,append_nil] at hx
      exact hbehind.written x hx ((owes_append h ht).mp howes).1
    · intro x hx
      refine (owes_append h ht).mpr ⟨hbehind.missing x hx,fun he => hp ?_⟩
      rw [← h.owedItem y.id ⟨t,ht⟩ x (mem_pending (howed x hx)) y hy he rfl]
      exact lane_priority h.sound (howed x hx)

/- An append whose item was flushed or evicted meanwhile writes nothing. -/
theorem appendSpool_missing {file : Bytes} {seals : Nat}
    (hspool : q.spool=some ⟨some file,seals⟩)
    (hnone : ∀ x∈q.inner.control++q.inner.bulk, x.id≠id) :
    q.appendSpool codec .done id =
      { q with spool := some ⟨some file,seals+1⟩ }.persistError 1 := by
  have hfind : ((q.inner.control++q.inner.bulk).find? fun x => x.id=id)=none :=
    find?_eq_none.mpr fun x hx => by simpa using hnone x hx
  simp only [Queue.appendSpool,hspool,hfind,Option.bind_none]

theorem Inv.append (hc : codec.Exact) (h : Inv codec limits s) (ht : s.phase t = .mustAppend id)
    (hord : ∀ x∈pending s, ∀ y∈pending s, y.id=id → x.priority=y.priority → x.id < id → ¬ Owes s x.id) :
    Inv codec limits (s.become (s.queue.appendSpool codec .done id) t .idle) := by
  obtain ⟨file,seals,hspool⟩ := h.spool
  have hnotrw : s.phase t ≠ .mustRewrite := by simp [ht]
  have hbelow : ∀ id', Owes (s.become (s.queue.appendSpool codec .done id) t .idle) id' →
      id' < s.queue.inner.nextId := fun id' ho => h.owedBelow id' ((owes_append h ht).mp ho).1
  have honce := owedOnce_become (s.queue.appendSpool codec .done id) t .idle h.owedOnce
    (fun id hp => by cases hp)
  by_cases hfound : ∃ y∈pending s, y.id=id
  · obtain ⟨y,hy,rfl⟩ := hfound
    have hfind := find_id y hy fun x hx hid => h.owedItem y.id ⟨t,ht⟩ x hx y hy hid rfl
    obtain ⟨line,henc,happend⟩ := appendSpool_found hc hspool y hfind
    rw [happend] at hbelow honce ⊢
    refine ⟨h.limits_eq,h.sound,⟨_,_,rfl⟩,hbelow,honce,?_,?_⟩
    · intro id' ho
      exact h.owedItem id' ((owes_append h ht).mp ho).1
    · cases h.file with
      | inl hrw => exact .inl (rewriting_become hnotrw hrw)
      | inr hfile =>
        obtain ⟨file',seals',items,hspool',hspooled,hlanes⟩ := hfile
        obtain ⟨rfl,rfl⟩ : file=file' ∧ seals=seals' := by simpa using hspool.symm.trans hspool'
        exact .inr (fileBehind_append h ht hy (fun x hx => hord x hx y hy rfl) hspooled hlanes henc)
  · have hnone : ∀ x∈s.queue.inner.control++s.queue.inner.bulk, x.id≠id :=
      fun x hx he => hfound ⟨x,hx,he⟩
    rw [appendSpool_missing hspool hnone] at hbelow honce ⊢
    refine ⟨h.limits_eq,h.sound.persistErrors _,⟨_,_,rfl⟩,hbelow,honce,?_,?_⟩
    · intro id' ho
      exact h.owedItem id' ((owes_append h ht).mp ho).1
    · cases h.file with
      | inl hrw => exact .inl (rewriting_become hnotrw hrw)
      | inr hfile =>
        obtain ⟨file',seals',items,hspool',hspooled,hlanes⟩ := hfile
        obtain ⟨rfl,rfl⟩ : file=file' ∧ seals=seals' := by simpa using hspool.symm.trans hspool'
        refine .inr ⟨file,seals+1,items,rfl,hspooled,fun p => ?_⟩
        obtain ⟨owed,hlane,hbehind⟩ := hlanes p
        refine ⟨owed,hlane,?_,?_,hbehind.ordered⟩
        · intro x hx ho
          exact hbehind.written x hx ((owes_append h ht).mp ho).1
        · intro x hx
          have hxlane : x∈lane s.queue.inner p := by
            rw [hlane]
            exact mem_append_right _ hx
          exact (owes_append h ht).mpr ⟨hbehind.missing x hx,hnone x (mem_pending hxlane)⟩

/- A rewrite with nothing pending owed brings the file up to date. -/
theorem Inv.rewrite (hc : codec.Exact) (h : Inv codec limits s)
    (hord : ∀ x∈pending s, ¬ Owes s x.id) :
    Inv codec limits (s.become (s.queue.rewriteSpool codec .done) t .idle) := by
  obtain ⟨file,seals,hspool⟩ := h.spool
  obtain ⟨n,hinner⟩ := rewriteSpool_inner codec .done s.queue
  obtain ⟨file',seals',items,hspool',hspooled,hcontrol,hbulk⟩ :=
    onDisk_rewriteSpool hc hspool h.sound_queue
  rw [hinner] at hcontrol hbulk
  refine ⟨(rewriteSpool_limits codec .done s.queue).trans h.limits_eq,?_,⟨_,_,hspool'⟩,?_,
    owedOnce_become _ _ _ h.owedOnce (fun id hp => by cases hp),?_,.inr ?_⟩
  · simp only [System.become]
    rw [hinner]
    exact h.sound.persistErrors n
  · intro id ho
    simp only [System.become]
    rw [hinner]
    exact h.owedBelow id (owes_of_become_idle ho)
  · intro id ho
    simp only [pending,System.become]
    rw [hinner]
    exact h.owedItem id (owes_of_become_idle ho)
  · refine ⟨file',seals',items,hspool',hspooled,fun p => ⟨[],?_,?_,by simp,.nil⟩⟩
    · simp only [System.become]
      rw [hinner,append_nil]
      cases p with
      | control => exact hcontrol.symm
      | bulk => exact hbulk.symm
    · intro x hx ho
      apply hord x _ (owes_of_become_idle ho)
      cases p with
      | control => exact mem_append_left _ (hcontrol ▸ hx)
      | bulk => exact mem_append_right _ (hbulk ▸ hx)

theorem Inv.step (hc : codec.Exact) (h : Inv codec limits s) {event : Event τ} {s' : System τ}
    (hstep : Section codec s event s') (hord : Orderly s event) : Inv codec limits s' := by
  cases hstep with
  | @refused t priority data g e hidle henq =>
    have hcases := enqueueLocked_refused_or_accepted h.sound_queue priority hord
    rw [henq] at hcases
    cases hcases with
    | inl hrefused =>
      obtain ⟨rfl,-⟩ := hrefused
      exact h.refused hidle
    | inr haccepted =>
      obtain ⟨k,-,he,-⟩ := haccepted
      cases he
  | @accepted t priority data g id compactNeeded hidle henq =>
    have hcases := enqueueLocked_refused_or_accepted h.sound_queue priority hord
    rw [henq] at hcases
    cases hcases with
    | inl hrefused =>
      obtain ⟨-,e,he⟩ := hrefused
      cases he
    | inr haccepted =>
      obtain ⟨k,hk,he,hfull⟩ := haccepted
      cases he
      rw [h.limits_eq] at hfull
      cases k with
      | zero => exact h.accepted_append hidle priority hfull
      | succ k => exact h.accepted_rewrite hidle hk priority hfull
  | flush hidle => exact h.flush hidle
  | @append t id ht =>
    rw [Orderly,ht] at hord
    exact h.append hc ht hord
  | @rewrite t ht =>
    rw [Orderly,ht] at hord
    exact h.rewrite hc hord

omit [DecidableEq τ] in
theorem inv_opened (hc : codec.Exact) {spool : Spool}
    (hopen : Queue.openSpool codec limits .done spool = .ok q) :
    Inv codec limits (⟨q,fun _ => .idle⟩ : System τ) := by
  obtain ⟨hlimits,hs,file,seals,items,hspool,hspooled,hcontrol,hbulk⟩ :=
    kept_openSpool hc hopen
  have hnone : ∀ id, ¬ Owes (⟨q,fun _ => .idle⟩ : System τ) id := by
    intro id ho
    obtain ⟨t,ht⟩ := ho
    cases ht
  refine ⟨hlimits,hs,⟨_,_,hspool⟩,fun id ho => absurd ho (hnone id),?_,
    fun id ho => absurd ho (hnone id),.inr ⟨file,seals,items,hspool,hspooled,fun p => ?_⟩⟩
  · intro t t' id ht
    cases ht
  · refine ⟨[],?_,fun x _ => hnone x.id,by simp,.nil⟩
    rw [append_nil]
    cases p with
    | control => exact hcontrol.symm
    | bulk => exact hbulk.symm

omit [DecidableEq τ] in
theorem Inv.fileAgrees (h : Inv codec limits s) (hquiet : s.Quiet) : FileAgrees codec s.queue := by
  cases h.file with
  | inl hrw =>
    obtain ⟨t,ht⟩ := hrw
    rw [hquiet t] at ht
    cases ht
  | inr hfile =>
    obtain ⟨file,seals,items,hspool,hspooled,hlanes⟩ := hfile
    have hall : ∀ p, lane s.queue.inner p=laneOf p items := by
      intro p
      obtain ⟨owed,hlane,hbehind⟩ := hlanes p
      cases owed with
      | nil => rw [hlane,append_nil]
      | cons x owed =>
        obtain ⟨t,ht⟩ := hbehind.missing x mem_cons_self
        rw [hquiet t] at ht
        cases ht
    exact ⟨file,seals,items,hspool,parseSpool_spooled hspooled,(hall .control).symm,
      (hall .bulk).symm⟩
end

/-- In every interleaving that keeps the order above, once all calls have returned the file
agrees with memory. -/
theorem spool_agrees_when_quiet (codec : Codec) (hc : codec.Exact) (limits : QueueLimits)
    (spool : Spool) (q : Queue) (hopen : Queue.openSpool codec limits .done spool = .ok q)
    (events : List (Event τ)) (s : System τ)
    (hrun : Run (fun s event s' => Orderly s event ∧ Section codec s event s')
      ⟨q,fun _ => .idle⟩ events s) (hquiet : s.Quiet) : FileAgrees codec s.queue := by
  have hinv : Inv codec limits s := by
    refine hrun.invariant (inv_opened hc hopen) ?_
    intro s event s' h hstep
    exact h.step hc hstep.2 hstep.1
  exact hinv.fileAgrees hquiet

section
open SpoolJson

/- Two threads on a new queue, each past the critical section of its own enqueue. -/
def started : System Bool := ⟨freshQueue ⟨10,10,.rejectNew⟩,fun _ => .idle⟩

def oneAccepted : System Bool :=
  started.become { started.queue with inner := accept started.queue.inner 0 .control [1] } false
    (.mustAppend 0)

def twoAccepted : System Bool :=
  oneAccepted.become
    { oneAccepted.queue with inner := accept oneAccepted.queue.inner 0 .control [2] } true
    (.mustAppend 1)

theorem run_twoAccepted (allowed : System Bool → Event Bool → Prop)
    (hone : allowed started (.enqueue false .control [1]))
    (htwo : allowed oneAccepted (.enqueue true .control [2])) {events : List (Event Bool)}
    {s : System Bool}
    (hrest : Run (fun s event s' => allowed s event ∧ Section jsonCodec s event s') twoAccepted
      events s) :
    Run (fun s event s' => allowed s event ∧ Section jsonCodec s event s') started
      (.enqueue false .control [1] :: .enqueue true .control [2]::events) s := by
  have hfirst := enqueueLocked_fits started.queue.inner started.queue.limits .control [1]
    (by decide +kernel) (by decide +kernel)
  have hsecond := enqueueLocked_fits oneAccepted.queue.inner oneAccepted.queue.limits .control [2]
    (by decide +kernel) (by decide +kernel)
  exact .cons ⟨hone,.accepted rfl hfirst⟩ (.cons ⟨htwo,.accepted rfl hsecond⟩ hrest)

/- Both threads write, the one given first before the other. -/
def written (first : Bool) (firstId secondId : Nat) : System Bool :=
  let s := twoAccepted.become (twoAccepted.queue.appendSpool jsonCodec .done firstId) first .idle
  s.become (s.queue.appendSpool jsonCodec .done secondId) (!first) .idle

theorem written_quiet (first : Bool) (firstId secondId : Nat) :
    (written first firstId secondId).Quiet := by
  intro t
  cases first <;> cases t <;> rfl

/- In the order of their items the two appends agree with memory. -/
theorem spool_agrees_when_quiet_in_order : FileAgrees jsonCodec (written false 0 1).queue := by
  refine spool_agrees_when_quiet jsonCodec jsonCodec_exact _ _ _ (openSpool_fresh _) _ _
    (run_twoAccepted Orderly (of_decide_eq_false (by decide +kernel))
      (of_decide_eq_false (by decide +kernel))
      (.cons ⟨?_,.append rfl⟩ (.cons ⟨?_,.append rfl⟩ (.refl _)))) (written_quiet false 0 1)
  · intro x _ y _ _ _ hlt
    exact absurd hlt (Nat.not_lt_zero _)
  · intro x _ y _ _ _ hlt howes
    obtain ⟨t,ht⟩ := howes
    cases t with
    | false => cases ht
    | true =>
      have hid : 1=x.id := Phase.mustAppend.inj ht
      omega

/- The other way round the file has the lane backwards. -/
theorem spool_order_lost :
    ¬ ∀ (codec : Codec), codec.Exact → ∀ (limits : QueueLimits) (spool : Spool) (q : Queue),
      Queue.openSpool codec limits .done spool = .ok q →
      ∀ (events : List (Event Bool)) (s : System Bool),
        Run (Section codec) ⟨q,fun _ => .idle⟩ events s → s.Quiet →
        FileAgrees codec s.queue := by
  intro hall
  have hrun := (run_twoAccepted (fun _ _ => True) trivial trivial
    (.cons ⟨trivial,.append rfl⟩ (.cons ⟨trivial,.append rfl⟩ (.refl (written true 1 0))))).mono
      (fun _ _ _ h => h.2)
  obtain ⟨file,seals,items,hspool,hparse,hcontrol,-⟩ :=
    hall jsonCodec jsonCodec_exact _ _ _ (openSpool_fresh _) _ _ hrun (written_quiet true 1 0)
  have hfile : ((written true 1 0).queue.spool.bind fun spool => spool.file.bind fun file =>
      (jsonCodec.parseSpool file).toOption.map (laneOf .control)) ≠
        some (written true 1 0).queue.inner.control := by decide +kernel
  apply hfile
  rw [hspool,Option.bind_some,Option.bind_some,hparse]
  exact congrArg some hcontrol
end

end AetherX.SpoolThreads
