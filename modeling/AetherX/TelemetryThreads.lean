import AetherX.Telemetry

/-! Record calls beside one attaching stream. A record that finds no receiver goes to the spool
in a later section, and the stream may subscribe and drain in between. -/
namespace AetherX.TelemetryThreads
open StoreAndForward QueueAccounting Telemetry Machine List

/- What an enqueue has yet to write to the file. -/
inductive SpoolWrite where
  | append (id : Nat)
  | rewrite

def SpoolWrite.run (codec : Codec) (r : WriteResult) (q : Queue) : SpoolWrite → Queue
  | .append id => q.appendSpool codec r id
  | .rewrite => q.rewriteSpool codec r

inductive StreamState where
  | created
  | subscribed
  | drained (items : List QueuedItem)
  | attached (replay : List (List TelemetryEvent))

/- Any number of record calls may be under way: those between their failed send and their
   enqueue, and those between their enqueue and the end of its file write. -/
structure System where
  tx : Channel
  queue : Queue
  holding : List TelemetryEvent
  writing : List SpoolWrite
  stream : StreamState
  recorded : List TelemetryEvent
  delivered : List TelemetryEvent

def System.start (q : Queue) : System := ⟨[],q,[],[],.created,[],[]⟩

inductive Event where
  | send (ev : TelemetryEvent)
  | enqueue
  | write (r : WriteResult)
  | subscribe
  | drain
  | rewrite (r : WriteResult)
  | poll

/-- One section of one call. No receiver lags, and the spool refuses nothing. -/
inductive Section (codec : Codec) (wire : Wire) : System → Event → System → Prop
  | sent {s : System} {ev : TelemetryEvent} {tx : Channel} :
      (∀ unread∈s.tx, unread.length < channelCapacity) → s.tx.send ev=some tx →
      Section codec wire s (.send ev) { s with tx := tx, recorded := s.recorded++[ev] }
  | unsent {s : System} {ev : TelemetryEvent} : s.tx.send ev=none →
      Section codec wire s (.send ev)
        { s with holding := s.holding++[ev], recorded := s.recorded++[ev] }
  | enqueued {s : System} {before after : List TelemetryEvent} {ev : TelemetryEvent} {g : Inner}
      {id : Nat} {compactNeeded : Bool} : s.holding=before++ev::after →
      s.queue.inner.enqueueLocked s.queue.limits .control (wire.encodeToVec ev) =
        (g, .ok (id, compactNeeded)) →
      Section codec wire s .enqueue
        { s with
          queue := { s.queue with inner := g }
          holding := before++after
          writing := s.writing++[if compactNeeded then .rewrite else .append id] }
  | written {s : System} {before after : List SpoolWrite} {w : SpoolWrite} {r : WriteResult} :
      s.writing=before++w::after →
      Section codec wire s (.write r)
        { s with queue := w.run codec r s.queue, writing := before++after }
  | subscribed {s : System} : s.stream = .created →
      Section codec wire s .subscribe { s with tx := s.tx.subscribe, stream := .subscribed }
  | drained {s : System} : s.stream = .subscribed →
      Section codec wire s .drain
        { s with
          queue := { s.queue with inner := s.queue.inner.drainLocked.1 }
          stream := .drained s.queue.inner.drainLocked.2 }
  | rewritten {s : System} {items : List QueuedItem} {r : WriteResult} :
      s.stream = .drained items →
      Section codec wire s (.rewrite r)
        { s with
          queue := s.queue.rewriteSpool codec r
          stream := .attached (chunks replayChunk ((wire.events items).filter (wants []))) }
  | polled {s : System} {replay replay' : List (List TelemetryEvent)} {tx : Channel}
      {batch : Option (List TelemetryEvent)} : s.stream = .attached replay →
      advance [] 0 s.tx replay=(tx, replay', batch) →
      Section codec wire s .poll
        { s with
          tx := tx
          stream := .attached replay'
          delivered := s.delivered++batch.getD [] }

def System.collector (s : System) : Collector := ⟨s.tx,some s.queue⟩

section
variable {codec : Codec} {wire : Wire} {s : System}
end

def StreamState.events (wire : Wire) : StreamState → List TelemetryEvent
  | .created => []
  | .subscribed => []
  | .drained items => wire.events items
  | .attached replay => replay.flatten

/- The events of the spool at the start, but for the bulk items evicted since, oldest first. -/
def kept (wire : Wire) (q : Queue) (s : System) : List TelemetryEvent :=
  wire.events (q.inner.control ++
    q.inner.bulk.drop (s.queue.inner.totalEvicted-q.inner.totalEvicted))

/- The stream delivered what the spool kept and every recorded event, each as often as it was
   there. -/
def ExactlyOnce (wire : Wire) (q : Queue) (s : System) : Prop :=
  s.delivered.Perm (kept wire q s++s.recorded)

/- Every record has returned, and the stream is attached and has nothing left to read. -/
structure Complete (s : System) : Prop where
  holding : s.holding=[]
  writing : s.writing=[]
  stream : s.stream = .attached []
  unread : s.tx.flatten=[]

/- Nobody is between a failed send and its enqueue when the stream drains the spool. -/
def QuietDrain (s : System) (event : Event) : Prop := event = .drain → s.holding=[]

/-- Up to the drain: every recorded event is in the control lane, in a record call, or unread. -/
structure Before (wire : Wire) (q : Queue) (s : System) : Prop where
  stream : s.stream = .created ∧ s.tx=[] ∨ s.stream = .subscribed ∧ ∃ unread, s.tx=[unread]
  delivered : s.delivered=[]
  spool : ∃ fresh k, s.queue.inner.control=q.inner.control++fresh ∧
    s.queue.inner.bulk=q.inner.bulk.drop k ∧
    s.queue.inner.totalEvicted=q.inner.totalEvicted+k ∧
    s.recorded.Perm (wire.events fresh++s.holding++s.tx.flatten)
  roundTrips : ∀ ev∈s.holding, wire.RoundTrips ev

/-- From the drain on: the events that record calls held then are in the spool or still with
them, and all other events are with the stream. -/
structure After (wire : Wire) (q : Queue) (late : List TelemetryEvent) (s : System) : Prop where
  stream : (∃ items, s.stream = .drained items) ∨ ∃ replay, s.stream = .attached replay
  tx : ∃ unread, s.tx=[unread]
  bulk : s.queue.inner.bulk=[]
  waiting : (wire.events s.queue.inner.control++s.holding).Perm late
  balance : (s.delivered++s.stream.events wire++s.tx.flatten++late).Perm
    (kept wire q s++s.recorded)
  roundTrips : ∀ ev∈s.holding, wire.RoundTrips ev

theorem before_start (wire : Wire) (q : Queue) : Before wire q (.start q) where
  stream := .inl ⟨rfl,rfl⟩
  delivered := rfl
  spool := ⟨[],0,(append_nil _).symm,rfl,rfl,List.Perm.refl _⟩
  roundTrips := fun _ h => absurd h not_mem_nil

/-- A receiver that does not lag gets the event behind all it has to read. -/
theorem send_receiver {unread : List TelemetryEvent} {ev : TelemetryEvent} {tx : Channel}
    (hroom : unread.length < channelCapacity) (h : Channel.send [unread] ev=some tx) :
    tx=[unread++[ev]] := by
  have hdrop : unread.length+1-channelCapacity=0 := by omega
  simpa [Channel.send,hdrop] using h.symm

theorem enqueued_lanes {g g' : Inner} {limits : QueueLimits} {data : Bytes} {id : Nat}
    {compactNeeded : Bool}
    (h : g.enqueueLocked limits .control data=(g', .ok (id, compactNeeded))) :
    g'.control=g.control++[⟨g.nextId,.control,data⟩] ∧ ∃ k ≤ g.bulk.length,
      g'.bulk=g.bulk.drop k ∧ g'.totalEvicted=g.totalEvicted+k := by
  obtain ⟨-,-,e,he⟩ | ⟨-,k,hk,-,⟨heq,-⟩ | ⟨-,⟨e,he⟩,-⟩⟩ :=
    enqueueLocked_cases g limits .control data
  · simp [h] at he
  · rw [h] at heq
    have hg : g'=accept g k .control data := congrArg Prod.fst heq
    rw [hg]
    exact ⟨rfl,k,hk,rfl,rfl⟩
  · simp [h] at he

theorem run_inner (codec : Codec) (r : WriteResult) (q : Queue) (w : SpoolWrite) :
    ∃ n, (w.run codec r q).inner={ q.inner with persistErrors := n } := by
  cases w with
  | append id => exact appendSpool_inner codec r id q
  | rewrite => exact rewriteSpool_inner codec r q

/-- An unfiltered poll moves the next events on and loses none. -/
theorem advance_unfiltered (unread : List TelemetryEvent) (replay : List (List TelemetryEvent)) :
    ∃ unread' replay' batch, advance [] 0 [unread] replay=([unread'], replay', batch) ∧
      batch.getD []++(replay'.flatten++unread')=replay.flatten++unread := by
  cases replay with
  | cons batch replay => exact ⟨unread,replay,some batch,rfl,by simp⟩
  | nil =>
    cases unread with
    | nil => exact ⟨[],[],none,rfl,rfl⟩
    | cons ev unread => exact ⟨unread,[],some [ev],rfl,rfl⟩

section
variable {codec : Codec} {wire : Wire} {q : Queue} {s : System} {late : List TelemetryEvent}

variable {ev : TelemetryEvent} {tx : Channel} {after before : List TelemetryEvent}

theorem Before.sent (h : Before wire q s)
    (hroom : ∀ unread∈s.tx, unread.length < channelCapacity) (hsend : s.tx.send ev=some tx) :
    Before wire q { s with tx := tx, recorded := s.recorded++[ev] } := by
  obtain ⟨fresh,k,hcontrol,hbulk,hevicted,hrecorded⟩ := h.spool
  obtain ⟨-,htx⟩ | ⟨hstream,unread,htx⟩ := h.stream
  · rw [htx] at hsend
    cases hsend
  · rw [htx] at hsend hrecorded
    have htx' := send_receiver (hroom unread (by simp [htx])) hsend
    refine ⟨.inr ⟨hstream,_,htx'⟩,h.delivered,⟨fresh,k,hcontrol,hbulk,hevicted,?_⟩,
      h.roundTrips⟩
    simpa [htx'] using hrecorded.append_right [ev]

theorem Before.unsent (h : Before wire q s) (hev : wire.RoundTrips ev)
    (hsend : s.tx.send ev=none) :
    Before wire q { s with holding := s.holding++[ev], recorded := s.recorded++[ev] } := by
  obtain ⟨fresh,k,hcontrol,hbulk,hevicted,hrecorded⟩ := h.spool
  obtain ⟨hstream,htx⟩ | ⟨-,unread,htx⟩ := h.stream
  · refine ⟨.inl ⟨hstream,htx⟩,h.delivered,⟨fresh,k,hcontrol,hbulk,hevicted,?_⟩,?_⟩
    · simpa [htx] using hrecorded.append_right [ev]
    · intro ev' hmem
      cases mem_append.mp hmem with
      | inl hold => exact h.roundTrips ev' hold
      | inr hnew => exact mem_singleton.mp hnew ▸ hev
  · simp [htx,Channel.send] at hsend

/- Leaving the record call and joining the control lane. -/
theorem perm_enqueued {events : List TelemetryEvent} (h : s.holding=before++ev::after) :
    (events++s.holding).Perm (events++[ev]++(before++after)) := by
  rw [h,append_assoc]
  exact perm_middle.append_left events

theorem mem_holding_of_enqueued {ev' : TelemetryEvent} (h : s.holding=before++ev::after)
    (hmem : ev'∈before++after) : ev'∈s.holding := by
  rw [h]
  exact perm_middle.symm.subset (mem_cons_of_mem ev hmem)

theorem Before.enqueued (h : Before wire q s) {g : Inner} {id : Nat} {compactNeeded : Bool}
    (writing : List SpoolWrite) (hholding : s.holding=before++ev::after)
    (henq : s.queue.inner.enqueueLocked s.queue.limits .control (wire.encodeToVec ev)=(g, .ok (id, compactNeeded))) :
    Before wire q { s with
      queue := { s.queue with inner := g }, holding := before++after, writing := writing } := by
  obtain ⟨fresh,k,hcontrol,hbulk,hevicted,hrecorded⟩ := h.spool
  obtain ⟨hlane,j,-,hdrop,hcount⟩ := enqueued_lanes henq
  have hev : wire.RoundTrips ev := h.roundTrips ev (by simp [hholding])
  refine ⟨h.stream,h.delivered,
    ⟨fresh++[⟨s.queue.inner.nextId,.control,wire.encodeToVec ev⟩],k+j,?_,?_,?_,?_⟩,
    fun ev' hmem => h.roundTrips ev' (mem_holding_of_enqueued hholding hmem)⟩
  · rw [hlane,hcontrol,append_assoc]
  · rw [hdrop,hbulk,drop_drop]
  · rw [hcount,hevicted,Nat.add_assoc]
  · rw [Wire.events_append,Wire.events_encoded hev]
    exact hrecorded.trans ((perm_enqueued hholding).append_right _)

theorem Before.written (h : Before wire q s) (w : SpoolWrite) (r : WriteResult)
    (writing : List SpoolWrite) :
    Before wire q { s with queue := w.run codec r s.queue, writing := writing } := by
  obtain ⟨n,hinner⟩ := run_inner codec r s.queue w
  refine ⟨h.stream,h.delivered,?_,h.roundTrips⟩
  simp only [hinner]
  exact h.spool

theorem Before.subscribed (h : Before wire q s) (hcreated : s.stream = .created) :
    Before wire q { s with tx := s.tx.subscribe, stream := .subscribed } := by
  obtain ⟨-,htx⟩ | ⟨hstream,-⟩ := h.stream
  · refine ⟨.inr ⟨rfl,[],by simp [htx,Channel.subscribe]⟩,h.delivered,?_,h.roundTrips⟩
    simpa [htx,Channel.subscribe] using h.spool
  · simp [hstream] at hcreated

/-- The drain hands everything that is in the spool to the stream, and leaves behind what the
record calls still hold. -/
theorem Before.drained (h : Before wire q s) (hsubscribed : s.stream = .subscribed) :
    After wire q s.holding { s with
      queue := { s.queue with inner := s.queue.inner.drainLocked.1 }
      stream := .drained s.queue.inner.drainLocked.2 } := by
  obtain ⟨fresh,k,hcontrol,hbulk,hevicted,hrecorded⟩ := h.spool
  obtain ⟨hstream,-⟩ | ⟨-,htx⟩ := h.stream
  · simp [hstream] at hsubscribed
  · refine ⟨.inl ⟨_,rfl⟩,htx,rfl,List.Perm.refl _,?_,h.roundTrips⟩
    have hk : s.queue.inner.totalEvicted-q.inner.totalEvicted=k := by omega
    classical
    rw [perm_iff_count] at hrecorded ⊢
    intro ev
    have hcount := hrecorded ev
    simp only [kept,Inner.drainLocked,StreamState.events,h.delivered,hcontrol,hbulk,hk,
      Wire.events_append,count_append,nil_append] at hcount ⊢
    omega

theorem After.sent (h : After wire q late s)
    (hroom : ∀ unread∈s.tx, unread.length < channelCapacity) (hsend : s.tx.send ev=some tx) :
    After wire q late { s with tx := tx, recorded := s.recorded++[ev] } := by
  obtain ⟨unread,htx⟩ := h.tx
  have hbalance := h.balance
  rw [htx] at hsend hbalance
  have htx' := send_receiver (hroom unread (by simp [htx])) hsend
  refine ⟨h.stream,⟨_,htx'⟩,h.bulk,h.waiting,?_,h.roundTrips⟩
  classical
  rw [perm_iff_count] at hbalance ⊢
  intro ev'
  have hcount := hbalance ev'
  simp only [htx',kept,count_append,flatten_singleton] at hcount ⊢
  omega

theorem After.enqueued (h : After wire q late s) {g : Inner} {id : Nat} {compactNeeded : Bool}
    (writing : List SpoolWrite) (hholding : s.holding=before++ev::after)
    (henq : s.queue.inner.enqueueLocked s.queue.limits .control (wire.encodeToVec ev)=(g, .ok (id, compactNeeded))) :
    After wire q late { s with
      queue := { s.queue with inner := g }, holding := before++after, writing := writing } := by
  obtain ⟨hlane,j,hj,hdrop,hcount⟩ := enqueued_lanes henq
  have hev : wire.RoundTrips ev := h.roundTrips ev (by simp [hholding])
  -- the bulk lane is empty since the drain, so nothing is evicted
  have hzero : j=0 := by simpa [h.bulk] using hj
  refine ⟨h.stream,h.tx,?_,?_,?_,
    fun ev' hmem => h.roundTrips ev' (mem_holding_of_enqueued hholding hmem)⟩
  · rw [hdrop,h.bulk,drop_nil]
  · rw [hlane,Wire.events_append,Wire.events_encoded hev]
    exact (perm_enqueued hholding).symm.trans h.waiting
  · simpa [kept,hcount,hzero] using h.balance

theorem After.written (h : After wire q late s) (w : SpoolWrite) (r : WriteResult)
    (writing : List SpoolWrite) :
    After wire q late { s with queue := w.run codec r s.queue, writing := writing } := by
  obtain ⟨n,hinner⟩ := run_inner codec r s.queue w
  refine ⟨h.stream,h.tx,?_,?_,?_,h.roundTrips⟩
  · simpa [hinner] using h.bulk
  · simpa [hinner] using h.waiting
  · simpa [kept,hinner] using h.balance

theorem After.rewritten (h : After wire q late s) {items : List QueuedItem}
    (hdrained : s.stream = .drained items) (r : WriteResult) :
    After wire q late { s with
      queue := s.queue.rewriteSpool codec r
      stream := .attached (chunks replayChunk ((wire.events items).filter (wants []))) } := by
  obtain ⟨n,hinner⟩ := rewriteSpool_inner codec r s.queue
  have hall : (wire.events items).filter (wants [])=wire.events items :=
    filter_eq_self.mpr fun _ _ => rfl
  have hbalance := h.balance
  rw [hdrained] at hbalance
  refine ⟨.inr ⟨_,rfl⟩,h.tx,?_,?_,?_,h.roundTrips⟩
  · simpa [hinner] using h.bulk
  · simpa [hinner] using h.waiting
  · simpa [kept,hinner,StreamState.events,hall,flatten_chunks (show 0 < replayChunk by decide)]
      using hbalance

theorem After.polled (h : After wire q late s) {replay replay' : List (List TelemetryEvent)}
    {batch : Option (List TelemetryEvent)} (hattached : s.stream = .attached replay)
    (hadvance : advance [] 0 s.tx replay=(tx, replay', batch)) :
    After wire q late { s with
      tx := tx, stream := .attached replay', delivered := s.delivered++batch.getD [] } := by
  obtain ⟨unread,htx⟩ := h.tx
  obtain ⟨unread₁,replay₁,batch₁,heq,hmoved⟩ := advance_unfiltered unread replay
  rw [htx,heq,Prod.mk.injEq,Prod.mk.injEq] at hadvance
  obtain ⟨rfl,rfl,rfl⟩ := hadvance
  have hbalance := h.balance
  rw [hattached,htx] at hbalance
  refine ⟨.inr ⟨_,rfl⟩,⟨_,rfl⟩,h.bulk,h.waiting,?_,h.roundTrips⟩
  simpa [kept,StreamState.events,hmoved] using hbalance

/- The events that take part come back from the spool as they were. -/
def Faithful (wire : Wire) (event : Event) : Prop := ∀ ev, event = .send ev → wire.RoundTrips ev

variable {t : System} {event : Event} {events : List Event}

theorem Before.step (h : Before wire q s) (hevent : Faithful wire event)
    (hstep : Section codec wire s event t) :
    event ≠ .drain ∧ Before wire q t ∨ event = .drain ∧ After wire q s.holding t := by
  cases hstep with
  | sent hroom hsend => exact .inl ⟨Event.noConfusion,h.sent hroom hsend⟩
  | unsent hsend => exact .inl ⟨Event.noConfusion,h.unsent (hevent _ rfl) hsend⟩
  | enqueued hholding henq => exact .inl ⟨Event.noConfusion,h.enqueued _ hholding henq⟩
  | written => exact .inl ⟨Event.noConfusion,h.written _ _ _⟩
  | subscribed hcreated => exact .inl ⟨Event.noConfusion,h.subscribed hcreated⟩
  | drained hsubscribed => exact .inr ⟨rfl,h.drained hsubscribed⟩
  | rewritten hdrained =>
    obtain ⟨hstream,-⟩ | ⟨hstream,-⟩ := h.stream <;> simp [hstream] at hdrained
  | polled hattached =>
    obtain ⟨hstream,-⟩ | ⟨hstream,-⟩ := h.stream <;> simp [hstream] at hattached

theorem After.step (h : After wire q late s) (hstep : Section codec wire s event t) :
    event ≠ .drain ∧ After wire q late t := by
  cases hstep with
  | sent hroom hsend => exact ⟨Event.noConfusion,h.sent hroom hsend⟩
  | unsent hsend =>
    obtain ⟨unread,htx⟩ := h.tx
    simp [htx,Channel.send] at hsend
  | enqueued hholding henq => exact ⟨Event.noConfusion,h.enqueued _ hholding henq⟩
  | written => exact ⟨Event.noConfusion,h.written _ _ _⟩
  | subscribed hcreated =>
    obtain ⟨_,hstream⟩ | ⟨_,hstream⟩ := h.stream <;> simp [hstream] at hcreated
  | drained hsubscribed =>
    obtain ⟨_,hstream⟩ | ⟨_,hstream⟩ := h.stream <;> simp [hstream] at hsubscribed
  | rewritten hdrained => exact ⟨Event.noConfusion,h.rewritten hdrained _⟩
  | polled hattached hadvance => exact ⟨Event.noConfusion,h.polled hattached hadvance⟩

def QuietSection (codec : Codec) (wire : Wire) (s : System) (event : Event) (t : System) : Prop :=
  QuietDrain s event ∧ Section codec wire s event t

theorem After.run (h : After wire q late s) (hrun : Run (Section codec wire) s events t) :
    After wire q late t ∧ Run (QuietSection codec wire) s events t := by
  induction hrun with
  | refl s => exact ⟨h,.refl s⟩
  | cons hstep _ ih =>
    obtain ⟨hevent,h⟩ := h.step hstep
    obtain ⟨hend,hquiet⟩ := ih h
    exact ⟨hend,.cons ⟨fun heq => absurd heq hevent,hstep⟩ hquiet⟩

/-- A run either has not come to the drain, or has left behind what was held then; and when
nothing was, it is a quiet one. -/
theorem Before.run (h : Before wire q s) (hfaithful : ∀ event∈events, Faithful wire event)
    (hrun : Run (Section codec wire) s events t) :
    Before wire q t ∨
      ∃ late, After wire q late t ∧ (late=[] → Run (QuietSection codec wire) s events t) := by
  induction hrun with
  | refl s => exact .inl h
  | @cons s₁ s₂ s₃ event events hstep hrun ih =>
    obtain ⟨hevent,h⟩ | ⟨rfl,hafter⟩ := h.step (hfaithful _ mem_cons_self) hstep
    · obtain hbefore | ⟨late,hafter,hquiet⟩ :=
        ih h fun event hmem => hfaithful event (mem_cons_of_mem _ hmem)
      · exact .inl hbefore
      · exact .inr ⟨late,hafter,fun hlate =>
          .cons ⟨fun heq => absurd heq hevent,hstep⟩ (hquiet hlate)⟩
    · obtain ⟨hend,hquiet⟩ := hafter.run hrun
      exact .inr ⟨_,hend,fun hlate => .cons ⟨fun _ => hlate,hstep⟩ hquiet⟩

/- Nothing has been left behind so far. -/
def OnTime (wire : Wire) (q : Queue) (s : System) : Prop := Before wire q s ∨ After wire q [] s

theorem OnTime.run (h : OnTime wire q s) (hfaithful : ∀ event∈events, Faithful wire event)
    (hrun : Run (QuietSection codec wire) s events t) : OnTime wire q t := by
  refine (hrun.labels hfaithful).invariant h ?_
  rintro s event t (h | h) ⟨hevent,hquiet,hstep⟩
  · obtain ⟨-,h⟩ | ⟨heq,h⟩ := h.step hevent hstep
    · exact .inl h
    · exact .inr (hquiet heq ▸ h)
  · exact .inr (h.step hstep).2

theorem Before.not_complete (h : Before wire q s) : ¬ Complete s := by
  intro hdone
  have hattached := hdone.stream
  obtain ⟨hstream,-⟩ | ⟨hstream,-⟩ := h.stream <;> simp [hstream] at hattached

/-- At the end the stream has delivered everything but what was left behind. -/
theorem After.exactlyOnce_iff (h : After wire q late s) (hdone : Complete s) :
    ExactlyOnce wire q s ↔ late=[] := by
  have hbalance := h.balance
  simp only [hdone.stream,hdone.unread,StreamState.events,flatten_nil,
    append_nil] at hbalance
  constructor
  · intro honce
    have hlen := (hbalance.trans honce.symm).length_eq
    rw [length_append] at hlen
    exact length_eq_zero_iff.mp (by omega)
  · intro hlate
    rw [hlate,append_nil] at hbalance
    exact hbalance
end

/-- Once all calls have returned and the stream has been read to its end, it has delivered every
event exactly once, exactly when its drain met no record between a failed send and its
enqueue. -/
theorem exactly_once_iff (codec : Codec) (wire : Wire) (q : Queue) (events : List Event)
    (s : System) (hwire : ∀ ev, .send ev∈events → wire.RoundTrips ev)
    (hrun : Run (Section codec wire) (.start q) events s) (hdone : Complete s) :
    ExactlyOnce wire q s ↔
      Run (fun s event t => QuietDrain s event ∧ Section codec wire s event t) (.start q)
        events s := by
  have hfaithful : ∀ event∈events, Faithful wire event := by
    rintro event hmem ev rfl
    exact hwire ev hmem
  constructor
  · intro honce
    obtain hbefore | ⟨late,hafter,hquiet⟩ := (before_start wire q).run hfaithful hrun
    · exact absurd hdone hbefore.not_complete
    · exact hquiet ((hafter.exactlyOnce_iff hdone).mp honce)
  · intro hquiet
    have hstart : OnTime wire q (.start q) := .inl (before_start wire q)
    obtain hbefore | hafter := hstart.run hfaithful hquiet
    · exact absurd hdone hbefore.not_complete
    · exact (hafter.exactlyOnce_iff hdone).mpr rfl

section
variable (codec : Codec)

def emptied (q : Queue) : Queue := { q with inner := q.inner.drainLocked.1 }

/- A queue without a file has nothing to rewrite. -/
theorem rewritten_memory {wire : Wire} {s : System} {items : List QueuedItem}
    {replay : List (List TelemetryEvent)} (hdrained : s.stream = .drained items)
    (hmemory : s.queue.spool=none)
    (hreplay : chunks replayChunk ((wire.events items).filter (wants []))=replay) :
    Section codec wire s (.rewrite .done) { s with stream := .attached replay } := by
  have hqueue : s.queue.rewriteSpool codec .done=s.queue := by
    simp only [Queue.rewriteSpool,hmemory]
  have hstep : Section codec wire s (.rewrite .done) _ := .rewritten hdrained
  rwa [hqueue,hreplay] at hstep

theorem replay_fullQueue :
    chunks replayChunk ((kindWire.events fullQueue.inner.drainLocked.2).filter (wants [])) =
      [[connectSuccess]] := by
  have hevents : kindWire.events fullQueue.inner.drainLocked.2=[connectSuccess] := rfl
  simp [hevents,chunks,wants,replayChunk]

def waiting : System :=
  ⟨[],fullQueue,[],[],.created,[connectSuccess],[]⟩

def read : System :=
  ⟨[[]],emptied fullQueue,[],[],.attached [],[connectSuccess],[connectSuccess]⟩

theorem run_waiting : Run (QuietSection codec kindWire) (.start emptyQueue)
    [.send connectSuccess,.enqueue,.write .done] waiting := by
  have hhold : [connectSuccess]=[]++connectSuccess::[] := rfl
  have hwrite : [SpoolWrite.append 0]=[]++SpoolWrite.append 0::[] := rfl
  exact .cons ⟨Event.noConfusion,.unsent rfl⟩ (.cons ⟨Event.noConfusion,
    .enqueued hhold emptyQueue_enqueueLocked⟩ (.cons ⟨Event.noConfusion,.written hwrite⟩
    (.refl _)))

theorem run_read : Run (QuietSection codec kindWire) waiting
    [.subscribe,.drain,.rewrite .done,.poll] read := by
  exact .cons ⟨Event.noConfusion,.subscribed rfl⟩ (.cons ⟨fun _ => rfl,.drained rfl⟩
    (.cons ⟨Event.noConfusion,rewritten_memory codec rfl rfl replay_fullQueue⟩
    (.cons ⟨Event.noConfusion,.polled rfl rfl⟩ (.refl _))))

theorem read_complete : Complete read := ⟨rfl,rfl,rfl,rfl⟩

theorem exactly_once_iff_read : ExactlyOnce kindWire emptyQueue read := by
  have hrun := (run_waiting SpoolJson.jsonCodec).append (run_read SpoolJson.jsonCodec)
  refine (exactly_once_iff SpoolJson.jsonCodec kindWire emptyQueue _ read ?_
    (hrun.mono fun _ _ _ h => h.2) read_complete).mpr hrun
  intro ev hmem
  simp only [cons_append,nil_append,mem_cons,Event.send.injEq,reduceCtorEq,
    not_mem_nil,or_false] at hmem
  exact hmem ▸ connectSuccess_roundTrips

/- The stream subscribes and drains between the failed send and the enqueue. -/
def missed : System :=
  ⟨[[]],{ emptied emptyQueue with
      inner := accept (emptied emptyQueue).inner 0 .control (kindWire.encodeToVec connectSuccess) },
    [],[],.attached [],[connectSuccess],[]⟩

theorem run_missed : Run (Section codec kindWire) (.start emptyQueue)
    [.send connectSuccess,.subscribe,.drain,.rewrite .done,.enqueue,.write .done] missed := by
  have hhold : [connectSuccess]=[]++connectSuccess::[] := rfl
  have hwrite : [SpoolWrite.append 0]=[]++SpoolWrite.append 0::[] := rfl
  have henq := enqueueLocked_fits (emptied emptyQueue).inner (emptied emptyQueue).limits .control
    (kindWire.encodeToVec connectSuccess) (by decide +kernel) (by decide +kernel)
  have hreplay : chunks replayChunk
      ((kindWire.events emptyQueue.inner.drainLocked.2).filter (wants []))=[] := by
    decide +kernel
  exact .cons (.unsent rfl) (.cons (.subscribed rfl) (.cons (.drained rfl)
    (.cons (rewritten_memory codec rfl rfl hreplay) (.cons (.enqueued hhold henq)
    (.cons (.written hwrite) (.refl _))))))

/-- The record's send finds no receiver, the stream subscribes and drains an empty spool, and
only then the event is enqueued: nobody will deliver it on this stream. -/
theorem late_enqueue_missed : ¬ ∀ (codec : Codec) (wire : Wire) (q : Queue) (events : List Event)
    (s : System), (∀ ev, .send ev∈events → wire.RoundTrips ev) →
    Run (Section codec wire) (.start q) events s → Complete s → ExactlyOnce wire q s := by
  intro h
  have honce := h SpoolJson.jsonCodec kindWire emptyQueue _ missed ?_
    (run_missed SpoolJson.jsonCodec) ⟨rfl,rfl,rfl,rfl⟩
  · have hlen := honce.length_eq
    revert hlen
    decide +kernel
  · intro ev hmem
    simp only [mem_cons,Event.send.injEq,reduceCtorEq,not_mem_nil,or_false] at hmem
    exact hmem ▸ connectSuccess_roundTrips
end

end AetherX.TelemetryThreads
