import Mathlib.Data.List.Induction
import Mathlib.Data.List.Perm.Subperm
import AetherX.QueueAccounting

/-! Telemetry events on their way to the control plane: onto the broadcast channel while a
stream is attached, into the spool while none is, and out of the spool to the next stream. -/
namespace AetherX.Telemetry
open StoreAndForward QueueAccounting Machine List

structure CensorshipSignal where
  confidence : Float
  detectedClass : String
  observedAtUnixMillis : Int64

structure TelemetryEvent where
  nodeId : String := ""
  instanceId : String := ""
  protocolId : String := ""
  isp : Int32 := 0
  asn : UInt32 := 0
  asnOrg : String := ""
  event : Int32 := 0
  tsUnixMillis : Int64 := 0
  success : Bool := false
  rttMs : Int32 := 0
  throughputBps : Float := 0.0
  context : List (String × String) := []
  signal : Option CensorshipSignal := none

/- The protobuf library. -/
structure Wire where
  encodeToVec : TelemetryEvent → Bytes
  decode : Bytes → Option TelemetryEvent

namespace Wire
variable (wire : Wire)

def RoundTrips (ev : TelemetryEvent) : Prop := wire.decode (wire.encodeToVec ev)=some ev

def events (items : List QueuedItem) : List TelemetryEvent :=
  items.filterMap fun item => wire.decode item.data

@[simp] theorem events_nil : wire.events []=[] := rfl

@[simp] theorem events_append (xs ys : List QueuedItem) :
    wire.events (xs++ys)=wire.events xs++wire.events ys :=
  filterMap_append

variable {wire}

theorem events_encoded {ev : TelemetryEvent} (h : wire.RoundTrips ev) (id : Nat)
    (priority : Priority) : wire.events [⟨id,priority,wire.encodeToVec ev⟩]=[ev] := by
  simp only [events,filterMap_cons,show wire.decode (wire.encodeToVec ev)=some ev from h,filterMap_nil]

end Wire

def channelCapacity : Nat := 4096

/- The broadcast channel: for each receiver the events it has yet to read. -/
abbrev Channel := List (List TelemetryEvent)

/- A receiver that is too far behind loses its oldest event. With no receiver the event is
   given back. -/
def Channel.send (tx : Channel) (ev : TelemetryEvent) : Option Channel :=
  if tx.isEmpty then none
  else some (tx.map fun unread => (unread++[ev]).drop (unread.length+1-channelCapacity))

def Channel.subscribe (tx : Channel) : Channel := tx++[[]]

structure Collector where
  tx : Channel
  spool : Option Queue

/- What became of a recorded event; the code does not look at it. -/
inductive Fate where
  | broadcast
  | spooled
  | refused (e : EnqueueError)
  | dropped
  deriving DecidableEq

section
variable (codec : Codec) (wire : Wire)

def Collector.record (r : WriteResult) (ev : TelemetryEvent) (c : Collector) : Collector × Fate :=
  match c.spool with
  | none =>
    match c.tx.send ev with
    | some tx => ({ c with tx := tx }, .broadcast)
    | none => (c, .dropped)
  | some q =>
    match c.tx.send ev with
    | some tx => ({ c with tx := tx }, .broadcast)
    | none =>
      let (q, result) := q.tryEnqueue codec r .control (wire.encodeToVec ev)
      ({ c with spool := some q },
        match result with
        | .ok _ => .spooled
        | .error e => .refused e)

def Collector.drainSpooled (r : WriteResult) (c : Collector) : Collector × List TelemetryEvent :=
  match c.spool with
  | none => (c, [])
  | some q =>
    let (q, items) := q.flush codec r
    ({ c with spool := some q }, wire.events items)

def Collector.held (c : Collector) : List TelemetryEvent :=
  match c.spool with
  | none => []
  | some q => wire.events (q.inner.control++q.inner.bulk)
end

def chunks {α : Type*} (n : Nat) (xs : List α) : List (List α) :=
  (List.range ((xs.length+n-1)/n)).map fun i => (xs.drop (n*i)).take n

theorem flatten_chunks_range {α : Type*} (n : Nat) (xs : List α) (k : Nat) :
    ((List.range k).map fun i => (xs.drop (n*i)).take n).flatten=xs.take (n*k) := by
  induction k with
  | zero => simp
  | succ k ih =>
    rw [range_succ,map_append,flatten_append,ih,map_singleton,
      flatten_singleton,Nat.mul_succ,take_add]

theorem length_le_chunks {n : Nat} (hn : 0 < n) (length : Nat) :
    length ≤ n*((length+n-1)/n) := by
  have hdiv := Nat.div_add_mod (length+n-1) n
  have hmod := Nat.mod_lt (length+n-1) hn
  omega

/-- The first chunks are a first part of the list. -/
theorem flatten_take_chunks {α : Type*} {n : Nat} (hn : 0 < n) (xs : List α) (k : Nat) :
    ((chunks n xs).take k).flatten=xs.take (n*k) := by
  have hceil := length_le_chunks hn xs.length
  rw [chunks,← map_take,take_range,flatten_chunks_range]
  by_cases hk : k≤(xs.length+n-1)/n
  · rw [Nat.min_eq_left hk]
  · have hle := Nat.mul_le_mul_left n (Nat.le_of_not_le hk)
    rw [Nat.min_eq_right (Nat.le_of_not_le hk),take_of_length_le hceil,
      take_of_length_le (hceil.trans hle)]

theorem flatten_chunks {α : Type*} {n : Nat} (hn : 0 < n) (xs : List α) :
    (chunks n xs).flatten=xs := by
  rw [chunks,flatten_chunks_range,take_of_length_le (length_le_chunks hn xs.length)]

/- An empty filter lets every kind through. -/
def wants (kinds : List Int32) (ev : TelemetryEvent) : Bool :=
  kinds.isEmpty || kinds.contains ev.event

/- Events that the filter does not want are read and forgotten. -/
def nextLive (kinds : List Int32) :
    List TelemetryEvent → List TelemetryEvent × Option TelemetryEvent
  | [] => ([], none)
  | ev::rest => if wants kinds ev then (rest, some ev) else nextLive kinds rest

def replayChunk : Nat := 256

/- One poll of a stream that is attached: the next batch of the replay, then live events. -/
def advance (kinds : List Int32) (receiver : Nat) (tx : Channel) :
    List (List TelemetryEvent) →
      Channel × List (List TelemetryEvent) × Option (List TelemetryEvent)
  | batch::replay => (tx, replay, some batch)
  | [] =>
    let (unread, ev) := nextLive kinds (tx.getD receiver [])
    (tx.set receiver unread, [], ev.map fun ev => [ev])

/- The stream of one attachment. Nothing runs before it is polled for the first time. -/
inductive Stream where
  | created
  | attached (receiver : Nat) (replay : List (List TelemetryEvent))

section
variable (codec : Codec) (wire : Wire) (kinds : List Int32) (r : WriteResult)

/- What the stream does before its first batch; the receiver is there before the drain. -/
def Collector.start (c : Collector) : Collector × Nat × List (List TelemetryEvent) :=
  let receiver := c.tx.length
  let (c, backlog) := Collector.drainSpooled codec wire r { c with tx := c.tx.subscribe }
  (c, receiver, chunks replayChunk (backlog.filter (wants kinds)))

def Collector.pollAttached (c : Collector) (receiver : Nat) (replay : List (List TelemetryEvent)) :
    Collector × Stream × Option (List TelemetryEvent) :=
  let (tx, replay, batch) := advance kinds receiver c.tx replay
  ({ c with tx := tx }, .attached receiver replay, batch)

def Collector.poll (c : Collector) : Stream → Collector × Stream × Option (List TelemetryEvent)
  | .created =>
    let (c, receiver, replay) := c.start codec wire kinds r
    c.pollAttached kinds receiver replay
  | .attached receiver replay => c.pollAttached kinds receiver replay

def Collector.polls : Nat → Collector → Stream →
    Collector × Stream × List (List TelemetryEvent)
  | 0, c, stream => (c, stream, [])
  | n+1, c, stream =>
    let (c, stream, batch) := c.poll codec wire kinds r stream
    let (c, stream, batches) := Collector.polls n c stream
    (c, stream, batch.toList++batches)

def Collector.disconnect (c : Collector) : Stream → Collector
  | .created => c
  | .attached receiver _ => { c with tx := c.tx.eraseIdx receiver }

/- One attachment from its request until the client goes away, after some polls. -/
def Collector.attach (polls : Nat) (c : Collector) : Collector × List TelemetryEvent :=
  let (c, stream, batches) := Collector.polls codec wire kinds r polls c .created
  (c.disconnect stream, batches.flatten)

variable (c : Collector)

theorem drainSpooled_events : (c.drainSpooled codec wire r).2=c.held wire := by
  unfold Collector.drainSpooled Collector.held
  split <;> rfl

@[simp] theorem drainSpooled_tx : (c.drainSpooled codec wire r).1.tx=c.tx := by
  unfold Collector.drainSpooled
  split <;> rfl

theorem flush_lanes (q : Queue) :
    (q.flush codec r).1.inner.control=[] ∧ (q.flush codec r).1.inner.bulk=[] := by
  obtain ⟨n,hinner⟩ := rewriteSpool_inner codec r { q with inner := q.inner.drainLocked.1 }
  have heq : (q.flush codec r).1.inner={ q.inner.drainLocked.1 with persistErrors := n } := hinner
  rw [heq]
  exact ⟨rfl,rfl⟩

theorem drainSpooled_held : (c.drainSpooled codec wire r).1.held wire=[] := by
  cases hspool : c.spool with
  | none => simp only [Collector.drainSpooled,Collector.held,hspool]
  | some q =>
    obtain ⟨hcontrol,hbulk⟩ := flush_lanes codec r q
    simp only [Collector.drainSpooled,Collector.held,hspool,hcontrol,hbulk,append_nil,
      Wire.events_nil]

/- The spool does not depend on who is listening. -/
theorem drainSpooled_with_tx (tx : Channel) :
    Collector.drainSpooled codec wire r { c with tx := tx } =
      ({ (c.drainSpooled codec wire r).1 with tx := tx }, (c.drainSpooled codec wire r).2) := by
  cases hspool : c.spool <;> simp only [Collector.drainSpooled,hspool]

/-- With nothing live to read, a poll yields the next batch of the replay. -/
theorem advance_idle {receiver : Nat} {tx : Channel} (h : tx.getD receiver []=[])
    (replay : List (List TelemetryEvent)) :
    advance kinds receiver tx replay=(tx, replay.tail, replay.head?) := by
  cases replay with
  | cons batch replay => rfl
  | nil =>
    have hset : tx.set receiver []=tx := by
      by_cases hlt : receiver < tx.length
      · have hget : tx[receiver]=[] := by simpa [List.getD,hlt] using h
        rw [← hget,set_getElem_self]
      · exact set_eq_of_length_le (Nat.le_of_not_lt hlt)
    simp only [advance,h,nextLive,hset,tail_nil,head?_nil,Option.map_none]

theorem polls_attached {c : Collector} {receiver : Nat} (h : c.tx.getD receiver []=[])
    (n : Nat) (replay : List (List TelemetryEvent)) :
    Collector.polls codec wire kinds r n c (.attached receiver replay) =
      (c, .attached receiver (replay.drop n), replay.take n) := by
  induction n generalizing replay with
  | zero => rfl
  | succ n ih =>
    simp only [Collector.polls,Collector.poll,Collector.pollAttached,advance_idle kinds h,ih]
    cases replay <;> simp

theorem polls_created (n : Nat) (c : Collector) :
    Collector.polls codec wire kinds r (n+1) c .created =
      Collector.polls codec wire kinds r (n+1) (c.start codec wire kinds r).1
        (.attached (c.start codec wire kinds r).2.1 (c.start codec wire kinds r).2.2) := rfl

theorem attach_unpolled : c.attach codec wire kinds r 0=(c, []) := rfl

/-- A stream that is polled empties the spool, and yields what its filter wants of it as far
as it is read. -/
theorem attach_polled (n : Nat) (c : Collector) :
    c.attach codec wire kinds r (n+1) =
      ((c.drainSpooled codec wire r).1,
        ((c.held wire).filter (wants kinds)).take (replayChunk*(n+1))) := by
  have hidle : (c.start codec wire kinds r).1.tx.getD c.tx.length []=[] := by
    simp [Collector.start,Channel.subscribe]
  have hchunk : 0 < replayChunk := by decide
  rw [Collector.attach,polls_created]
  simp only [show (c.start codec wire kinds r).2.1=c.tx.length from rfl,
    polls_attached codec wire kinds r hidle,Collector.disconnect]
  simp only [Collector.start,drainSpooled_with_tx,drainSpooled_events,
    flatten_take_chunks hchunk,Channel.subscribe,eraseIdx_append_of_length_le le_rfl,
    Nat.sub_self,eraseIdx_cons_zero,append_nil]
  rw [← drainSpooled_tx codec wire r c]

/- The filter wants every event in the spool, and the stream is read to the end of its replay;
   or it is not read at all. -/
def Keeps (polls : Nat) (c : Collector) : Prop :=
  polls=0 ∨ (∀ ev∈c.held wire, wants kinds ev=true) ∧
    (c.held wire).length ≤ replayChunk*polls

/-- An attachment loses nothing that was in the spool exactly when it keeps to this. -/
theorem attach_keeps_iff (polls : Nat) (c : Collector) :
    (c.attach codec wire kinds r polls).2++(c.attach codec wire kinds r polls).1.held wire =
      c.held wire ↔ Keeps wire kinds polls c := by
  cases polls with
  | zero => simp [attach_unpolled,Keeps]
  | succ n =>
    rw [attach_polled,drainSpooled_held,append_nil,Keeps]
    constructor
    · intro heq
      have hlen := congrArg List.length heq
      rw [length_take] at hlen
      have hfilter : (c.held wire).filter (wants kinds)=c.held wire :=
        filter_sublist.eq_of_length_le (by omega)
      exact .inr ⟨filter_eq_self.mp hfilter,by omega⟩
    · rintro (hzero | ⟨hall,hlen⟩)
      · cases hzero
      · rw [filter_eq_self.mpr hall,take_of_length_le hlen]
end

inductive Call where
  | record (ev : TelemetryEvent) (r : WriteResult)
  | attach (kinds : List Int32) (polls : Nat) (r : WriteResult)

/- The collector, the events that the spool accepted and those that a stream yielded. -/
structure Session where
  collector : Collector
  accepted : List TelemetryEvent
  yielded : List TelemetryEvent

section
variable (codec : Codec) (wire : Wire)

def Session.next (s : Session) : Call → Session
  | .record ev r =>
    let (c, fate) := s.collector.record codec wire r ev
    { s with
      collector := c
      accepted := if fate = .spooled then s.accepted++[ev] else s.accepted }
  | .attach kinds polls r =>
    let (c, events) := s.collector.attach codec wire kinds r polls
    { s with collector := c, yielded := s.yielded++events }

def Session.start (q : Queue) : Session := ⟨⟨[],some q⟩,[],[]⟩

/- Every accepted event has been yielded or is in the spool, as often as it was accepted. -/
def Retained (s : Session) : Prop :=
  s.accepted.Subperm (s.yielded++s.collector.held wire)

def Careful (s : Session) : Call → Prop
  | .record _ _ => True
  | .attach kinds polls _ => Keeps wire kinds polls s.collector

/-- A control item that try_enqueue accepts joins the end of its lane; otherwise the lane stays
as it is. -/
theorem tryEnqueue_control (r : WriteResult) (data : Bytes) (q : Queue) :
    ((∃ id, (q.tryEnqueue codec r .control data).2 = .ok id) ∧
      (q.tryEnqueue codec r .control data).1.inner.control =
        q.inner.control++[⟨q.inner.nextId,.control,data⟩]) ∨
    (∃ e, (q.tryEnqueue codec r .control data).2 = .error e) ∧
      (q.tryEnqueue codec r .control data).1.inner.control=q.inner.control := by
  obtain ⟨⟨n,hinner⟩,-,hresult⟩ := tryEnqueue_inner codec r .control data q
  rw [hinner,hresult]
  obtain ⟨hstate,-,e,he⟩ | ⟨-,k,-,-,⟨heq,-⟩ | ⟨hstate,⟨e,he⟩,-⟩⟩ :=
    enqueueLocked_cases q.inner q.limits .control data
  · exact .inr ⟨⟨e,by rw [he]; rfl⟩,by rw [hstate]; rfl⟩
  · exact .inl ⟨⟨q.inner.nextId,by rw [heq]; rfl⟩,by rw [heq]; rfl⟩
  · exact .inr ⟨⟨e,by rw [he]; rfl⟩,by rw [hstate]; rfl⟩

/-- While nobody listens, an event goes to the end of the control lane or nowhere. -/
theorem record_detached {c : Collector} {q : Queue} (htx : c.tx=[]) (hspool : c.spool=some q)
    (r : WriteResult) (ev : TelemetryEvent) :
    (c.record codec wire r ev).1.tx=[] ∧ ∃ q', (c.record codec wire r ev).1.spool=some q' ∧
      ((c.record codec wire r ev).2 = .spooled ∧
          q'.inner.control=q.inner.control ++
            [⟨q.inner.nextId,.control,wire.encodeToVec ev⟩] ∨
        (c.record codec wire r ev).2 ≠ .spooled ∧ q'.inner.control=q.inner.control) := by
  have hsend : c.tx.send ev=none := by rw [htx]; rfl
  obtain ⟨⟨id,hok⟩,hcontrol⟩ | ⟨⟨e,herr⟩,hcontrol⟩ :=
    tryEnqueue_control codec r (wire.encodeToVec ev) q
  · simp only [Collector.record,hspool,hsend,hok]
    exact ⟨htx,_,rfl,.inl ⟨trivial,hcontrol⟩⟩
  · simp only [Collector.record,hspool,hsend,herr]
    exact ⟨htx,_,rfl,.inr ⟨by simp,hcontrol⟩⟩

/-- Nobody listens, and what was accepted was yielded or is in the control lane, from which
nothing is ever evicted. -/
structure Kept (s : Session) : Prop where
  detached : s.collector.tx=[]
  spooled : ∃ q, s.collector.spool=some q ∧
    s.accepted.Subperm (s.yielded++wire.events q.inner.control)

variable {codec wire}
variable {s : Session}

theorem Kept.retained (h : Kept wire s) : Retained wire s := by
  obtain ⟨q,hspool,haccepted⟩ := h.spooled
  refine haccepted.trans (List.Sublist.subperm ?_)
  rw [Collector.held,hspool]
  simp

theorem Kept.record (h : Kept wire s) {ev : TelemetryEvent} (hev : wire.RoundTrips ev)
    (r : WriteResult) : Kept wire (s.next codec wire (.record ev r)) := by
  obtain ⟨q,hspool,haccepted⟩ := h.spooled
  obtain ⟨htx,q',hspool',⟨hfate,hcontrol⟩ | ⟨hfate,hcontrol⟩⟩ :=
    record_detached codec wire h.detached hspool r ev
  · refine ⟨htx,q',hspool',?_⟩
    simp only [Session.next,hfate,if_true,hcontrol,Wire.events_append,
      Wire.events_encoded hev,← append_assoc]
    exact (subperm_append_right _).mpr haccepted
  · refine ⟨htx,q',hspool',?_⟩
    simp only [Session.next,hfate,if_false,hcontrol]
    exact haccepted

theorem Kept.attach (h : Kept wire s) {kinds : List Int32} {polls : Nat} (r : WriteResult)
    (hkeeps : Keeps wire kinds polls s.collector) :
    Kept wire (s.next codec wire (.attach kinds polls r)) := by
  obtain ⟨q,hspool,haccepted⟩ := h.spooled
  have heq := (attach_keeps_iff codec wire kinds r polls s.collector).mpr hkeeps
  cases polls with
  | zero => exact ⟨h.detached,q,hspool,by simpa [Session.next,attach_unpolled] using haccepted⟩
  | succ n =>
    have hheld : s.collector.held wire =
        wire.events q.inner.control++wire.events q.inner.bulk := by
      rw [Collector.held,hspool]
      exact wire.events_append ..
    rw [attach_polled,drainSpooled_held,append_nil,hheld] at heq
    constructor
    · simp only [Session.next,attach_polled,drainSpooled_tx,h.detached]
    · refine ⟨(q.flush codec r).1,?_,?_⟩
      · simp only [Session.next,attach_polled,Collector.drainSpooled,hspool]
      · simp only [Session.next,attach_polled,hheld,heq,(flush_lanes codec r q).1,
          Wire.events_nil,append_nil,← append_assoc]
        exact haccepted.trans (sublist_append_left _ _).subperm

/-- No accepted event is lost in a run whose streams want all that is in the spool when they
are first polled and are read to the end of their replay. -/
theorem spooled_retained (codec : Codec) (wire : Wire) (q : Queue) (calls : List Call)
    (s : Session) (hwire : ∀ ev r, .record ev r∈calls → wire.RoundTrips ev)
    (hrun : Run (Guarded (Careful wire) (Session.next codec wire)) (.start q) calls s) :
    Retained wire s := by
  have hlabels : ∀ call∈calls, ∀ ev r, call = .record ev r → wire.RoundTrips ev := by
    rintro call hmem ev r rfl
    exact hwire ev r hmem
  have hstart : Kept wire (.start q) := ⟨rfl,q,rfl,nil_subperm⟩
  have hkept : Kept wire s := by
    refine (hrun.labels hlabels).invariant hstart ?_
    rintro s call s' h ⟨hevents,hcareful,rfl⟩
    cases call with
    | record ev r => exact h.record (hevents ev r rfl) r
    | attach kinds polls r => exact h.attach r hcareful
  exact hkept.retained
end

/- The protobuf encoding of events in which only the kind is set: field seven, a varint. -/
def kindWire : Wire where
  encodeToVec ev := if ev.event=0 then [] else [0x38,ev.event.toUInt32.toUInt8]
  decode
    | [] => some {}
    | [0x38,kind] => some { event := kind.toUInt32.toInt32 }
    | _ => none

def connectSuccess : TelemetryEvent := { event := 1 }

theorem connectSuccess_roundTrips : kindWire.RoundTrips connectSuccess := rfl

/- A queue in memory, before and after it has taken the event. -/
def emptyQueue : Queue := .withLimits ⟨10,100,.rejectNew⟩

def fullQueue : Queue :=
  { emptyQueue with inner := accept emptyQueue.inner 0 .control (kindWire.encodeToVec connectSuccess) }

theorem emptyQueue_enqueueLocked :
    emptyQueue.inner.enqueueLocked emptyQueue.limits .control (kindWire.encodeToVec connectSuccess) =
      (fullQueue.inner, .ok (0, false)) :=
  enqueueLocked_fits _ _ _ _ (by decide +kernel) (by decide +kernel)

def oneSpooled : Session := ⟨⟨[],some fullQueue⟩,[connectSuccess],[]⟩

theorem next_oneSpooled (codec : Codec) :
    oneSpooled=(Session.start emptyQueue).next codec kindWire (.record connectSuccess .done) := by
  simp only [Session.next,Session.start,Collector.record,Channel.send,isEmpty_nil,if_true,
    Queue.tryEnqueue,emptyQueue_enqueueLocked]
  rfl

def oneReplayed : Session :=
  oneSpooled.next SpoolJson.jsonCodec kindWire (.attach [1] 1 .done)

/-- A stream that asks for the kind of the event keeps it. -/
theorem spooled_retained_kind : Retained kindWire oneReplayed ∧ oneReplayed.accepted.length=1 ∧
    oneReplayed.yielded.length=1 := by
  have hheld : oneSpooled.collector.held kindWire=[connectSuccess] := rfl
  refine ⟨spooled_retained SpoolJson.jsonCodec kindWire emptyQueue
    [.record connectSuccess .done,.attach [1] 1 .done] oneReplayed ?_ ?_,rfl,?_⟩
  · intro ev r hmem
    simp only [mem_cons,reduceCtorEq,not_mem_nil,or_false,Call.record.injEq] at hmem
    rw [hmem.1]
    exact connectSuccess_roundTrips
  · refine .cons ⟨trivial,next_oneSpooled _⟩ (.cons ⟨.inr ⟨?_,?_⟩,rfl⟩ (.refl _))
    · rw [hheld]
      simp [wants,connectSuccess]
    · rw [hheld]
      decide
  · decide +kernel

/-- An event of kind connect success is accepted while nobody listens. A stream that asks for
failures only attaches: it empties the spool and yields nothing. -/
theorem filtered_event_lost : ¬ ∀ (codec : Codec) (wire : Wire) (q : Queue)
    (records : List (TelemetryEvent × WriteResult))
    (attachments : List (List Int32 × Nat × WriteResult)),
    (∀ recorded∈records, wire.RoundTrips recorded.1) →
    Retained wire (((records.map fun (ev, r) => Call.record ev r) ++
      attachments.map fun (kinds, polls, r) => Call.attach kinds polls r).foldl
        (Session.next codec wire) (.start q)) := by
  intro h
  have hretained := h SpoolJson.jsonCodec kindWire emptyQueue [(connectSuccess, .done)]
    [([2], 1, .done)] (by simpa using connectSuccess_roundTrips)
  simp only [map_cons,map_nil,cons_append,nil_append,foldl_cons,
    foldl_nil,← next_oneSpooled] at hretained
  have hlen := List.Subperm.length_le hretained
  revert hlen
  decide +kernel

/- A window of outcomes as a ring. The unwritten slots are losses, and the count is cut to 32 bits. -/
structure RollingSuccess where
  samples : List Bool
  idx : Nat
  filled : Bool

namespace RollingSuccess
def new (window : Nat) : RollingSuccess := ⟨.replicate (max window 1) false,0,false⟩

def record (r : RollingSuccess) (success : Bool) : RollingSuccess :=
  let idx := (r.idx+1)%r.samples.length
  ⟨r.samples.set r.idx success,idx,r.filled || idx == 0⟩

def wins (r : RollingSuccess) : Nat := r.samples.count true

def stats (r : RollingSuccess) : UInt32 × Float :=
  let n := UInt32.ofNat (if r.filled then r.samples.length else r.idx)
  if n=0 then (0, 1.0) else (n, Float.ofNat r.wins/n.toFloat)

section
variable (window : Nat) (outcomes : List Bool)

/- Behind the losses that the ring began with, the last of the outcomes: the newest of them stand
   before the index, and the slot at the index is written next. -/
structure Holds (size : Nat) (r : RollingSuccess) : Prop where
  ring : ∃ older oldest old recent, .replicate size false++outcomes = older++oldest::old++recent ∧
    r.samples=recent++oldest::old ∧ r.idx=recent.length ∧ r.samples.length=size
  idx : r.idx = outcomes.length%size
  filled : r.filled=decide (size ≤ outcomes.length)

theorem Holds.record {size : Nat} {r : RollingSuccess} (h : Holds outcomes size r) (success : Bool) :
    Holds (outcomes++[success]) size (r.record success) := by
  obtain ⟨older,oldest,old,recent,hwritten,hsamples,hrecent,hsize⟩ := h.ring
  have hset : r.samples.set r.idx success=recent++success::old := by
    rw [hsamples,hrecent,set_append_right _ _ le_rfl,Nat.sub_self,set_cons_zero]
  rw [RollingSuccess.record,hset,hsize]
  have hnext : (r.idx+1)%size=(outcomes++[success]).length%size := by
    rw [h.idx,Nat.mod_add_mod,length_append,length_singleton]
  refine ⟨?_,hnext,?_⟩
  · rw [← append_assoc,hwritten]
    rw [hsamples,length_append,length_cons] at hsize
    cases old with
    | nil =>
      obtain ⟨first,rest,hfirst⟩ : ∃ first rest, recent++[success]=first::rest :=
        exists_cons_of_ne_nil (by simp)
      refine ⟨older++[oldest],first,rest,[],by simp [← hfirst],hfirst,?_,by simpa using hsize⟩
      rw [hrecent,← hsize,length_nil,Nat.zero_add,Nat.mod_self]
    | cons next old =>
      refine ⟨older++[oldest],next,old,recent++[success],by simp,by simp,?_,by simpa using hsize⟩
      rw [hrecent,← hsize,Nat.mod_eq_of_lt (by rw [length_cons]; omega),length_append,
        length_singleton]
  · change (r.filled || (r.idx+1)%size == 0)=_
    rw [hnext,h.filled,length_append,length_singleton]
    rcases Nat.lt_trichotomy (outcomes.length+1) size with hlt | rfl | hgt
    · rw [Nat.mod_eq_of_lt hlt,decide_eq_false (by omega),decide_eq_false (by omega)]
      rfl
    · rw [Nat.mod_self,decide_eq_true (le_refl _),BEq.rfl,Bool.or_true]
    · rw [decide_eq_true (by omega),decide_eq_true (by omega),Bool.true_or]

theorem holds_foldl : Holds outcomes (max window 1) (outcomes.foldl record (new window)) := by
  induction outcomes using List.reverseRecOn with
  | nil =>
    obtain ⟨n,hn⟩ := Nat.exists_eq_add_of_le' (Nat.le_max_right window 1)
    rw [foldl_nil,new,hn]
    exact ⟨⟨[],false,.replicate n false,[],by simp [replicate_succ]⟩,rfl,rfl⟩
  | append_singleton outcomes success ih =>
    rw [foldl_concat]
    exact ih.record outcomes success

theorem stats_count : (outcomes.foldl record (new window)).stats.1.toNat =
    min outcomes.length (max window 1)%2^32 := by
  obtain ⟨⟨-,-,-,-,-,-,-,hsize⟩,hidx,hfilled⟩ := holds_foldl window outcomes
  rw [stats,hsize,hidx,hfilled]
  have hn : (if decide (max window 1 ≤ outcomes.length) then max window 1 else
      outcomes.length%max window 1)=min outcomes.length (max window 1) := by
    by_cases hfull : max window 1 ≤ outcomes.length
    · rw [decide_eq_true hfull,if_pos rfl,min_eq_right hfull]
    · rw [decide_eq_false hfull,if_neg Bool.false_ne_true,Nat.mod_eq_of_lt (by omega),
        min_eq_left (by omega)]
  rw [hn]
  split_ifs with hzero
  · rw [← hzero,UInt32.toNat_ofNat']
  · exact UInt32.toNat_ofNat'

theorem wins_foldl : (outcomes.foldl record (new window)).wins =
    (outcomes.drop (outcomes.length-min outcomes.length (max window 1))).count true := by
  obtain ⟨⟨older,oldest,old,recent,hwritten,hsamples,-,hsize⟩,-,-⟩ := holds_foldl window outcomes
  have holder := congrArg List.length hwritten
  rw [hsamples] at hsize
  simp only [length_append,length_cons,length_replicate] at holder hsize
  have hlast := congrArg (List.drop older.length) hwritten
  rw [append_assoc,drop_left,drop_append,drop_replicate] at hlast
  have hkept : outcomes.length-min outcomes.length (max window 1) =
      older.length-(List.replicate (max window 1) false).length := by
    rw [length_replicate]; omega
  rw [wins,hsamples,perm_append_comm.count_eq,← hlast,count_append,hkept]
  exact Nat.add_eq_right.mpr count_replicate

/-- The window agrees with the history as long as what it has kept can be counted in 32 bits. -/
theorem rolling_window_iff (window : Nat) (outcomes : List Bool) :
    let r := outcomes.foldl record (new window)
    let kept := min outcomes.length (max window 1)
    (r.stats.1.toNat=kept ∧ r.wins=(outcomes.drop (outcomes.length-kept)).count true) ↔
      kept<2^32 := by
  intro r kept
  have hcount : r.stats.1.toNat=kept%2^32 := stats_count window outcomes
  rw [hcount,Nat.mod_eq_iff_lt (by decide)]
  exact ⟨fun h => h.1,fun h => ⟨h,wins_foldl window outcomes⟩⟩

/-- A full window of 2^32 outcomes is reported as empty. -/
theorem full_window_reported_empty : ¬ ∀ (window : Nat) (outcomes : List Bool),
    (outcomes.foldl record (new window)).stats.1.toNat=min outcomes.length (max window 1) := by
  intro h
  have hcount := h (2^32) (.replicate (2^32) true)
  rw [stats_count,length_replicate] at hcount
  omega
end

end RollingSuccess

end AetherX.Telemetry
