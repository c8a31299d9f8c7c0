import Mathlib.Algebra.Order.Group.Multiset
import Mathlib.Tactic.Abel
import AetherX.DiskSpool
import AetherX.Machine

/-! The batching writer of telemetry events: callers of WriteBatch fill a channel of bounded length
and overflow into the spool, one flusher takes the events out, inserts them with retries, spools
what could not be inserted and replays the spool after a success. -/
namespace AetherX.ClickHouse
open DiskSpool Machine

variable {E R τ : Type*}

def maxAttempts : Nat := 4

/- Where the flusher is. The last flag says that it returns after this flush. -/
inductive Flusher (E R : Type*) where
  | selecting (buf : List E)
  | draining (buf : List E)
  | inserting (rows : List R) (attempt : Nat) (last : Bool)
  | backingOff (rows : List R) (attempt : Nat) (last : Bool)
  | spooling (rows : List R) (last : Bool)
  | replaying (last : Bool)
  | reinserting (rows : List R) (last : Bool)
  | respooling (rows : List R) (last : Bool)
  | done
  deriving DecidableEq

namespace Flusher
variable (toRow : E → R)

def resume (last : Bool) : Flusher E R := if last then done else selecting []

def flush (buf : List E) (last : Bool) : Flusher E R :=
  if buf.isEmpty then resume last else inserting (buf.map toRow) 0 last

def hands : Flusher E R → List R
  | selecting buf | draining buf => buf.map toRow
  | inserting rows _ _ | backingOff rows _ _ | spooling rows _ => rows
  | reinserting rows _ | respooling rows _ => rows
  | replaying _ | done => []

@[simp] theorem hands_resume (last : Bool) : (resume last : Flusher E R).hands toRow=[] := by
  cases last <;> rfl

@[simp] theorem hands_flush (buf : List E) (last : Bool) :
    (flush toRow buf last).hands toRow=buf.map toRow := by
  cases buf with
  | nil => exact hands_resume toRow last
  | cons ev buf => rfl

end Flusher

/- A WriteBatch call with the events it has left; overflowing has found the channel full. -/
inductive Caller (E : Type*) where
  | idle
  | writing (events : List E)
  | overflowing (ev : E) (events : List E)
  | closing
  deriving DecidableEq

structure Writer (E R τ : Type*) where
  bufferCap : Nat
  flushSize : Nat
  spool : Option Bytes
  incoming : List E
  flusher : Flusher E R
  inserted : List R
  stop : Bool
  callers : τ → Caller E
  -- the events that WriteBatch is through with
  processed : List E

inductive Event (E τ : Type*) where
  | writeBatch (t : τ) (events : List E)
  | close (t : τ)
  | go (t : τ)
  | receive
  | tick
  | halt
  | insert (ok : Bool)
  | wake (expired : Bool)
  | proceed
  deriving DecidableEq

namespace Writer
variable (codec : Codec R) (toRow : E → R)

def new (bufferCap flushSize : Nat) (spool : Option Bytes) : Writer E R τ where
  bufferCap := if bufferCap=0 then (if flushSize=0 then 5000 else flushSize)*4 else bufferCap
  flushSize := if flushSize=0 then 5000 else flushSize
  spool := spool
  incoming := []
  flusher := .selecting []
  inserted := []
  stop := false
  callers := fun _ => .idle
  processed := []

def appendSpool (w : Writer E R τ) (rows : List R) : Writer E R τ :=
  { w with spool := w.spool.map (codec.append rows) }

def become [DecidableEq τ] (w : Writer E R τ) (t : τ) (c : Caller E) : Writer E R τ :=
  { w with callers := Function.update w.callers t c }

/- One step of the caller t. A call of Close returns once the flusher has. -/
def go [DecidableEq τ] (w : Writer E R τ) (t : τ) : Writer E R τ :=
  match w.callers t with
  | .idle => w
  | .writing [] => w.become t .idle
  | .writing (ev::events) =>
    if w.incoming.length < w.bufferCap then
      { w with incoming := w.incoming++[ev], processed := w.processed++[ev] }.become t (.writing events)
    else w.become t (.overflowing ev events)
  | .overflowing ev events =>
    { w.appendSpool codec [toRow ev] with processed := w.processed++[ev] }.become t (.writing events)
  | .closing => match w.flusher with
    | .done => w.become t .idle
    | _ => w

def receive (w : Writer E R τ) : Writer E R τ :=
  match w.flusher, w.incoming with
  | .selecting buf, ev::incoming =>
    { w with
      incoming
      flusher :=
        if w.flushSize ≤ buf.length+1 then .flush toRow (buf++[ev]) false else .selecting (buf++[ev]) }
  | _, _ => w

def tick (w : Writer E R τ) : Writer E R τ :=
  match w.flusher with
  | .selecting buf => { w with flusher := .flush toRow buf false }
  | _ => w

def halt (w : Writer E R τ) : Writer E R τ :=
  match w.flusher, w.stop with
  | .selecting buf, true => { w with flusher := .draining buf }
  | _, _ => w

/- Insert returns, in persist or in replaySpool. -/
def insert (ok : Bool) (w : Writer E R τ) : Writer E R τ :=
  match w.flusher with
  | .inserting rows attempt last =>
    if ok then { w with inserted := w.inserted++rows, flusher := .replaying last }
    else { w with flusher := .backingOff rows attempt last }
  | .reinserting rows last =>
    if ok then { w with inserted := w.inserted++rows, flusher := .resume last }
    else { w with flusher := .respooling rows last }
  | _ => w

/- The wait of withBackoff ends, by its timer or because the context of persist has expired. -/
def wake (expired : Bool) (w : Writer E R τ) : Writer E R τ :=
  match w.flusher with
  | .backingOff rows attempt last =>
    if expired || maxAttempts ≤ attempt+1 then { w with flusher := .spooling rows last }
    else { w with flusher := .inserting rows (attempt+1) last }
  | _ => w

/- The steps of the flusher that have one outcome. -/
def proceed (w : Writer E R τ) : Writer E R τ :=
  match w.flusher with
  | .draining buf => match w.incoming with
    | ev::incoming => { w with incoming, flusher := .draining (buf++[ev]) }
    | [] => { w with flusher := .flush toRow buf true }
  | .spooling rows last | .respooling rows last =>
    { w.appendSpool codec rows with flusher := .resume last }
  | .replaying last => match w.spool with
    | none => { w with flusher := .resume last }
    | some file =>
      let (rows, file) := codec.drainAll file
      { w with
        spool := some file
        flusher := if rows.isEmpty then .resume last else .reinserting rows last }
  | _ => w

def handle [DecidableEq τ] (w : Writer E R τ) : Event E τ → Writer E R τ
  | .writeBatch t events => match w.callers t with
    | .idle => w.become t (.writing events)
    | _ => w
  | .close t => match w.callers t with
    | .idle => { w with stop := true }.become t .closing
    | _ => w
  | .go t => w.go codec toRow t
  | .receive => w.receive toRow
  | .tick => w.tick toRow
  | .halt => w.halt
  | .insert ok => w.insert ok
  | .wake expired => w.wake expired
  | .proceed => w.proceed codec toRow

def spooled (w : Writer E R τ) : List R := (w.spool.map codec.rows).getD []

/- The four places of an event, with multiplicities. -/
def places (w : Writer E R τ) : Multiset R :=
  (w.incoming.map toRow : Multiset R)+w.flusher.hands toRow+w.spooled codec+w.inserted

end Writer

section
variable {codec : Codec R} {toRow : E → R} {rows₀ : List R} {w : Writer E R τ}

/- The spool file holds rows that can be read back and nothing else, and the flusher will put only
such rows into it. -/
structure Readable (codec : Codec R) (toRow : E → R) (w : Writer E R τ) : Prop where
  file : ∃ rows : List R, w.spool=some (rows.flatMap codec.encode) ∧ ∀ r∈rows, codec.RoundTrips r
  hands : ∀ r∈w.flusher.hands toRow, codec.RoundTrips r

structure Conserves (codec : Codec R) (toRow : E → R) (rows₀ : List R) (w : Writer E R τ) : Prop
    extends Readable codec toRow w where
  once : w.places codec toRow = ↑rows₀ + ↑(w.processed.map toRow)

theorem Readable.spooled_eq (h : Readable codec toRow w) :
    w.spool=some ((w.spooled codec).flatMap codec.encode) ∧
      ∀ r∈w.spooled codec, codec.RoundTrips r := by
  obtain ⟨rows,hfile,hrows⟩ := h.file
  have : w.spooled codec=rows := by
    rw [Writer.spooled,hfile,Option.map_some,Option.getD_some,rows_flatMap_encode hrows]
  rw [this]
  exact ⟨hfile,hrows⟩

/-- Rows that are appended are read after the rows that were there. -/
theorem Readable.appendSpool (h : Readable codec toRow w) {rows : List R}
    (hrows : ∀ r∈rows, codec.RoundTrips r) :
    Readable codec toRow (w.appendSpool codec rows) ∧
      (w.appendSpool codec rows).spooled codec=w.spooled codec++rows := by
  obtain ⟨hfile,hspooled⟩ := h.spooled_eq
  have hall : ∀ r∈w.spooled codec++rows, codec.RoundTrips r :=
    fun r hr => (List.mem_append.mp hr).elim (hspooled r) (hrows r)
  have hnew : (w.appendSpool codec rows).spool =
      some ((w.spooled codec++rows).flatMap codec.encode) := by
    rw [Writer.appendSpool,hfile,Option.map_some,Codec.append,List.flatMap_append]
  refine ⟨⟨⟨_,hnew,hall⟩,h.hands⟩,?_⟩
  rw [Writer.spooled,hnew,Option.map_some,Option.getD_some,rows_flatMap_encode hall]

theorem conserves_new (bufferCap flushSize : Nat) (hrows : ∀ r∈rows₀, codec.RoundTrips r) :
    Conserves codec toRow rows₀
      (Writer.new bufferCap flushSize (some (rows₀.flatMap codec.encode)) : Writer E R τ) where
  file := ⟨rows₀,rfl,hrows⟩
  hands := by simp [Writer.new,Flusher.hands]
  once := by
    simp [Writer.places,Writer.spooled,Writer.new,Flusher.hands,rows_flatMap_encode hrows]

/-- What a step takes out of one place and puts into another, or into the processed events. -/
theorem Conserves.move (h : Conserves codec toRow rows₀ w) {w' : Writer E R τ}
    (hread : Readable codec toRow w')
    (hmove : w'.places codec toRow+w.processed.map toRow=w.places codec toRow+w'.processed.map toRow) :
    Conserves codec toRow rows₀ w' where
  toReadable := hread
  once := by
    rw [h.once,add_right_comm] at hmove
    exact add_right_cancel hmove

variable {f : Flusher E R}

theorem Conserves.flusher (h : Conserves codec toRow rows₀ w)
    (hf : f.hands toRow=w.flusher.hands toRow) :
    Conserves codec toRow rows₀ { w with flusher := f } := by
  refine h.move ⟨h.file,by rw [hf]; exact h.hands⟩ ?_
  rw [Writer.places,hf]
  rfl

theorem Conserves.spool (h : Conserves codec toRow rows₀ w) {last : Bool} :
    Conserves codec toRow rows₀
      { w.appendSpool codec (w.flusher.hands toRow) with flusher := .resume last } := by
  obtain ⟨hread,hspooled⟩ := h.appendSpool h.hands
  refine h.move ⟨hread.file,by simp⟩ ?_
  rw [Writer.spooled] at hspooled
  simp only [Writer.places,Flusher.hands_resume,Writer.spooled,hspooled,← Multiset.coe_add,
    Multiset.coe_nil]
  simp only [Writer.appendSpool]
  abel

theorem Conserves.inserted (h : Conserves codec toRow rows₀ w) (hf : f.hands toRow=[]) :
    Conserves codec toRow rows₀
      { w with inserted := w.inserted++w.flusher.hands toRow, flusher := f } := by
  refine h.move ⟨h.file,by simp [hf]⟩ ?_
  simp only [Writer.places,hf,Writer.spooled,← Multiset.coe_add,Multiset.coe_nil]
  abel

theorem Conserves.drained (h : Conserves codec toRow rows₀ w) (hw : w.flusher.hands toRow=[])
    (hf : f.hands toRow=w.spooled codec) :
    Conserves codec toRow rows₀ { w with spool := some [], flusher := f } := by
  have hempty : codec.rows []=[] := rfl
  refine h.move ⟨⟨[],rfl,by simp⟩,by rw [hf]; exact h.spooled_eq.2⟩ ?_
  simp only [Writer.places,hw,hf,Writer.spooled,Option.map_some,Option.getD_some,hempty,
    Multiset.coe_nil]
  abel

theorem Conserves.enqueued (h : Conserves codec toRow rows₀ w) {ev : E} :
    Conserves codec toRow rows₀
      { w with incoming := w.incoming++[ev], processed := w.processed++[ev] } := by
  refine h.move ⟨h.file,h.hands⟩ ?_
  simp only [Writer.places,Writer.spooled,List.map_append,← Multiset.coe_add]
  abel

theorem Conserves.overflowed (htrip : ∀ ev, codec.RoundTrips (toRow ev))
    (h : Conserves codec toRow rows₀ w) {ev : E} :
    Conserves codec toRow rows₀
      { w.appendSpool codec [toRow ev] with processed := w.processed++[ev] } := by
  have hrow : ∀ r∈[toRow ev], codec.RoundTrips r := by simpa using htrip ev
  obtain ⟨hread,hspooled⟩ := h.appendSpool hrow
  refine h.move ⟨hread.file,hread.hands⟩ ?_
  rw [Writer.spooled] at hspooled
  simp only [Writer.places,Writer.spooled,hspooled,List.map_append,← Multiset.coe_add]
  simp only [Writer.appendSpool,List.map_cons,List.map_nil]
  abel

section
variable [DecidableEq τ]

theorem Conserves.become (h : Conserves codec toRow rows₀ w) (t : τ) (c : Caller E) :
    Conserves codec toRow rows₀ (w.become t c) :=
  ⟨⟨h.file,h.hands⟩,h.once⟩

theorem Conserves.go (htrip : ∀ ev, codec.RoundTrips (toRow ev))
    (h : Conserves codec toRow rows₀ w) (t : τ) :
    Conserves codec toRow rows₀ (w.go codec toRow t) := by
  rw [Writer.go]
  split
  · exact h
  · exact h.become _ _
  · split
    · exact h.enqueued.become _ _
    · exact h.become _ _
  · exact (h.overflowed htrip).become _ _
  · split
    · exact h.become _ _
    · exact h
end

theorem Conserves.taken (htrip : ∀ ev, codec.RoundTrips (toRow ev))
    (h : Conserves codec toRow rows₀ w) {ev : E} {incoming : List E}
    (hincoming : w.incoming=ev::incoming)
    (hf : f.hands toRow=w.flusher.hands toRow++[toRow ev]) :
    Conserves codec toRow rows₀ { w with incoming, flusher := f } := by
  have hhands : ∀ r∈f.hands toRow, codec.RoundTrips r := by
    intro r hr
    rw [hf,List.mem_append,List.mem_singleton] at hr
    obtain hr | rfl := hr
    · exact h.hands r hr
    · exact htrip ev
  refine h.move ⟨h.file,hhands⟩ ?_
  simp only [Writer.places,hf,hincoming,Writer.spooled,← Multiset.coe_add,List.map_cons,
    ← Multiset.singleton_add,← Multiset.cons_coe,Multiset.coe_nil]
  abel

theorem Conserves.receive (htrip : ∀ ev, codec.RoundTrips (toRow ev))
    (h : Conserves codec toRow rows₀ w) : Conserves codec toRow rows₀ (w.receive toRow) := by
  rw [Writer.receive]
  split
  · rename_i buf ev incoming hflusher hincoming
    refine h.taken htrip hincoming ?_
    have hbuf : (buf++[ev]).map toRow=w.flusher.hands toRow++[toRow ev] := by
      rw [hflusher,List.map_append]
      rfl
    split
    · exact (Flusher.hands_flush toRow _ false).trans hbuf
    · exact hbuf
  · exact h

theorem Conserves.tick (h : Conserves codec toRow rows₀ w) : Conserves codec toRow rows₀ (w.tick toRow) := by
  rw [Writer.tick]
  split
  · rename_i buf hflusher
    exact h.flusher (by rw [hflusher,Flusher.hands_flush]; rfl)
  · exact h

theorem Conserves.halt (h : Conserves codec toRow rows₀ w) : Conserves codec toRow rows₀ w.halt := by
  rw [Writer.halt]
  split
  · rename_i buf hflusher _
    exact h.flusher (by rw [hflusher]; rfl)
  · exact h

theorem Conserves.insert (h : Conserves codec toRow rows₀ w) (ok : Bool) :
    Conserves codec toRow rows₀ (w.insert ok) := by
  rw [Writer.insert]
  split
  · rename_i rows attempt last hflusher
    have hhands : w.flusher.hands toRow=rows := by rw [hflusher]; rfl
    cases ok
    · exact h.flusher hhands.symm
    · rw [← hhands]
      exact h.inserted rfl
  · rename_i rows last hflusher
    have hhands : w.flusher.hands toRow=rows := by rw [hflusher]; rfl
    cases ok
    · exact h.flusher hhands.symm
    · rw [← hhands]
      exact h.inserted (Flusher.hands_resume toRow last)
  · exact h

theorem Conserves.wake (h : Conserves codec toRow rows₀ w) (expired : Bool) :
    Conserves codec toRow rows₀ (w.wake expired) := by
  rw [Writer.wake]
  split
  · rename_i rows attempt last hflusher
    split
    · exact h.flusher (by rw [hflusher]; rfl)
    · exact h.flusher (by rw [hflusher]; rfl)
  · exact h

theorem Conserves.proceed (htrip : ∀ ev, codec.RoundTrips (toRow ev))
    (h : Conserves codec toRow rows₀ w) : Conserves codec toRow rows₀ (w.proceed codec toRow) := by
  rw [Writer.proceed]
  split
  · rename_i buf hflusher
    split
    · rename_i ev incoming hincoming
      exact h.taken htrip hincoming (by simp [hflusher,Flusher.hands])
    · exact h.flusher (by rw [hflusher,Flusher.hands_flush]; rfl)
  · rename_i rows last hflusher
    have hhands : rows=w.flusher.hands toRow := by rw [hflusher]; rfl
    rw [hhands]
    exact h.spool
  · rename_i rows last hflusher
    have hhands : rows=w.flusher.hands toRow := by rw [hflusher]; rfl
    rw [hhands]
    exact h.spool
  · rename_i last hflusher
    split
    · exact h.flusher (by rw [hflusher,Flusher.hands_resume]; rfl)
    · rename_i file hfile
      have hrows : codec.rows file=w.spooled codec := by rw [Writer.spooled,hfile]; rfl
      refine h.drained (by rw [hflusher]; rfl) ?_
      rw [← hrows]
      split
      · rename_i hempty
        rw [Flusher.hands_resume,List.isEmpty_iff.mp hempty]
      · rfl
  · exact h

/-- One step of the flusher or of a caller keeps every event in its one place. -/
theorem Conserves.handle [DecidableEq τ] (htrip : ∀ ev, codec.RoundTrips (toRow ev))
    (h : Conserves codec toRow rows₀ w) (e : Event E τ) :
    Conserves codec toRow rows₀ (w.handle codec toRow e) := by
  cases e with
  | writeBatch t events =>
    rw [Writer.handle]
    split
    · exact h.become _ _
    · exact h
  | close t =>
    rw [Writer.handle]
    split
    · exact ⟨⟨h.file,h.hands⟩,h.once⟩
    · exact h
  | go t => exact h.go htrip t
  | receive => exact h.receive htrip
  | tick => exact h.tick
  | halt => exact h.halt
  | insert ok => exact h.insert ok
  | wake expired => exact h.wake expired
  | proceed => exact h.proceed htrip
end

/-- The rows in the channel, in the hands of the flusher, in the spool and in the table are together
those that the spool began with and one for each event that WriteBatch is through with. -/
theorem events_conserved [DecidableEq τ] (codec : Codec R) (toRow : E → R)
    (htrip : ∀ ev, codec.RoundTrips (toRow ev)) (rows₀ : List R)
    (hrows : ∀ r∈rows₀, codec.RoundTrips r) (bufferCap flushSize : Nat) (es : List (Event E τ)) :
    let start := Writer.new bufferCap flushSize (some (rows₀.flatMap codec.encode))
    let w := es.foldl (Writer.handle codec toRow) start
    w.places codec toRow = ↑rows₀ + ↑(w.processed.map toRow) := by
  intro start w
  have hrun := run_foldl (Writer.handle codec toRow) es start
  have hend : Conserves codec toRow rows₀ w :=
    hrun.invariant (conserves_new bufferCap flushSize hrows) fun s e t hs ht => ht ▸ hs.handle htrip e
  exact hend.once

def bitCodec : Codec Bool where
  marshal b := some [if b then 49 else 48]
  unmarshal line := if line=[49] then some true else if line=[48] then some false else none

theorem bitCodec_roundTrips (b : Bool) : bitCodec.RoundTrips b := by
  cases b
  · exact ⟨[48],by decide⟩
  · exact ⟨[49],by decide⟩

/- The second event finds the channel full, the first one is spooled after a failed insert, and both
come back when the third has been inserted. -/
def outage : List (Event Bool Unit) :=
  [.writeBatch () [true,false],.go (),.go (),.go (),.receive,.tick,.insert false,.wake true,
    .proceed,.go (),.writeBatch () [true],.go (),.receive,.tick,.insert true,.proceed]

theorem events_conserved_outage :
    let w := outage.foldl (Writer.handle bitCodec id) (Writer.new 1 10 (some []))
    w.flusher = .reinserting [false,true] false ∧ w.inserted=[true] ∧
      w.places bitCodec id = ↑[true,false,true] :=
  ⟨rfl,rfl,events_conserved bitCodec id bitCodec_roundTrips [] (by simp) 1 10 outage⟩

section
variable [DecidableEq τ] (codec : Codec R) (toRow : E → R) {w : Writer E R τ} {e : Event E τ}

/- The flusher has found the channel empty after the stop, and receives no more. -/
def Flusher.over : Flusher E R → Bool
  | .selecting _ | .draining _ => false
  | .inserting _ _ last | .backingOff _ _ last | .spooling _ last | .replaying last => last
  | .reinserting _ last | .respooling _ last => last
  | .done => true

def Writer.sends (w : Writer E R τ) : Event E τ → Bool
  | .go t => match w.callers t with
    | .writing (_::_) => decide (w.incoming.length < w.bufferCap)
    | _ => false
  | _ => false

def Writer.Stranded (w : Writer E R τ) : Prop := w.flusher.over=true ∧ w.incoming≠[]

@[simp] theorem Flusher.over_resume (last : Bool) : (resume last : Flusher E R).over=last := by
  cases last <;> rfl

@[simp] theorem Flusher.over_flush (buf : List E) (last : Bool) : (flush toRow buf last).over=last := by
  cases buf with
  | nil => exact over_resume last
  | cons ev buf => rfl

theorem incoming_of_sends (h : w.sends e=true) :
    (w.handle codec toRow e).flusher=w.flusher ∧ (w.handle codec toRow e).incoming≠[] := by
  cases e with
  | go t =>
    rw [Writer.handle,Writer.go]
    simp only [Writer.sends] at h
    split at h
    · rename_i hcaller
      rw [hcaller]
      simp only [if_pos (of_decide_eq_true h)]
      exact ⟨rfl,by simp [Writer.become]⟩
    · cases h
  | _ => cases h

/-- Without a send the channel does not grow, and the flusher is over only once it is empty. -/
theorem incoming_of_not_sends (h : w.sends e=false) :
    (w.handle codec toRow e).flusher.over=w.flusher.over ∧
        ((w.handle codec toRow e).incoming=w.incoming ∨ w.flusher.over=false) ∨
      w.flusher.over=false ∧ (w.handle codec toRow e).incoming=[] := by
  cases e with
  | go t =>
    rw [Writer.handle,Writer.go]
    simp only [Writer.sends] at h
    split
    · exact .inl ⟨rfl,.inl rfl⟩
    · exact .inl ⟨rfl,.inl rfl⟩
    · rename_i hcaller
      rw [hcaller] at h
      rw [if_neg (of_decide_eq_false h)]
      exact .inl ⟨rfl,.inl rfl⟩
    · exact .inl ⟨rfl,.inl rfl⟩
    · split <;> exact .inl ⟨rfl,.inl rfl⟩
  | writeBatch t events | close t => rw [Writer.handle]; split <;> exact .inl ⟨rfl,.inl rfl⟩
  | receive =>
    rw [Writer.handle,Writer.receive]
    split
    · rename_i hflusher _
      rw [hflusher]
      refine .inl ⟨?_,.inr rfl⟩
      split
      · exact Flusher.over_flush toRow _ false
      · rfl
    · exact .inl ⟨rfl,.inl rfl⟩
  | tick =>
    rw [Writer.handle,Writer.tick]
    split
    · rename_i hflusher
      rw [hflusher]
      exact .inl ⟨Flusher.over_flush toRow _ false,.inr rfl⟩
    · exact .inl ⟨rfl,.inl rfl⟩
  | halt =>
    rw [Writer.handle,Writer.halt]
    split
    · rename_i hflusher _
      rw [hflusher]
      exact .inl ⟨rfl,.inr rfl⟩
    · exact .inl ⟨rfl,.inl rfl⟩
  | wake expired =>
    rw [Writer.handle,Writer.wake]
    split
    · rename_i hflusher
      rw [hflusher]
      split <;> exact .inl ⟨rfl,.inl rfl⟩
    · exact .inl ⟨rfl,.inl rfl⟩
  | insert ok =>
    rw [Writer.handle,Writer.insert]
    split
    · rename_i hflusher
      rw [hflusher]
      split <;> exact .inl ⟨rfl,.inl rfl⟩
    · rename_i hflusher
      rw [hflusher]
      split
      · exact .inl ⟨Flusher.over_resume _,.inl rfl⟩
      · exact .inl ⟨rfl,.inl rfl⟩
    · exact .inl ⟨rfl,.inl rfl⟩
  | proceed =>
    rw [Writer.handle,Writer.proceed]
    split
    · rename_i hflusher
      rw [hflusher]
      split
      · exact .inl ⟨rfl,.inr rfl⟩
      · rename_i hempty
        exact .inr ⟨rfl,hempty⟩
    · rename_i hflusher
      rw [hflusher]
      exact .inl ⟨Flusher.over_resume _,.inl rfl⟩
    · rename_i hflusher
      rw [hflusher]
      exact .inl ⟨Flusher.over_resume _,.inl rfl⟩
    · rename_i hflusher
      rw [hflusher]
      split
      · exact .inl ⟨Flusher.over_resume _,.inl rfl⟩
      · refine .inl ⟨?_,.inl rfl⟩
        dsimp only
        split
        · exact Flusher.over_resume _
        · rfl
    · exact .inl ⟨rfl,.inl rfl⟩

/-- What has come into the channel since is not taken out, and nothing else strands an event. -/
theorem stranded_handle_iff :
    (w.handle codec toRow e).Stranded ↔ w.Stranded ∨ w.flusher.over=true ∧ w.sends e=true := by
  by_cases hsends : w.sends e=true
  · obtain ⟨hflusher,hincoming⟩ := incoming_of_sends codec toRow hsends
    simp only [Writer.Stranded,hflusher,hsends]
    tauto
  · have hcases := incoming_of_not_sends codec toRow (Bool.not_eq_true _ ▸ hsends)
    simp only [Writer.Stranded]
    grind
end

/-- Once the flusher has returned, and with it Close, the channel is empty exactly if no event has
been put into it since the flusher found it empty after the stop. -/
theorem nothing_stranded_iff [DecidableEq τ] (codec : Codec R) (toRow : E → R) (bufferCap flushSize : Nat)
    (spool : Option Bytes) (es : List (Event E τ)) :
    let at_ (before : List (Event E τ)) : Writer E R τ :=
      before.foldl (Writer.handle codec toRow) (.new bufferCap flushSize spool)
    (at_ es).flusher = .done → ((at_ es).incoming=[] ↔ ∀ before e after, es=before++e::after →
      ¬ ((at_ before).flusher.over=true ∧ (at_ before).sends e=true)) := by
  intro at_ hdone
  have hover : (at_ es).flusher.over=true := by rw [hdone]; rfl
  have hsteps := foldl_along_iff (f := Writer.handle codec toRow) (P := fun w => ¬ w.Stranded) (fun _ => True)
    (fun _ _ _ => trivial)
    (fun w e _ h => not_congr ((stranded_handle_iff codec toRow).trans (or_iff_right h))) es trivial
    (fun h : (Writer.new bufferCap flushSize spool : Writer E R τ).Stranded => h.2 rfl)
  rw [← hsteps]
  constructor
  · rintro hempty before after rfl hstranded
    have hend := (run_foldl (Writer.handle codec toRow) after _).invariant hstranded fun w e w' h hstep =>
      hstep ▸ (stranded_handle_iff codec toRow).mpr (.inl h)
    rw [← List.foldl_append] at hend
    exact hend.2 hempty
  · intro h
    by_contra hnonempty
    exact h es [] (List.append_nil es).symm ⟨hover,hnonempty⟩

theorem nothing_stranded_iff_drained :
    let run : List (Event Bool Bool) := [.writeBatch true [true],.go true,.go true,.close false,.halt,
      .proceed,.proceed,.insert true,.proceed,.go false]
    let at_ (before : List (Event Bool Bool)) : Writer Bool Bool Bool :=
      before.foldl (Writer.handle bitCodec id) (.new 1 10 none)
    (at_ run).flusher = .done ∧ ((at_ run).incoming=[] ↔ ∀ before e after, run=before++e::after →
      ¬ ((at_ before).flusher.over=true ∧ (at_ before).sends e=true)) :=
  ⟨rfl,nothing_stranded_iff bitCodec id 1 10 none _ rfl⟩

/-- The flusher finds the channel empty and returns; the event that WriteBatch then puts into it
stays there after all calls have returned. -/
theorem late_event_stranded :
    let run : List (Event Bool Bool) := [.writeBatch true [true],.close false,.halt,.proceed,.go true,
      .go true,.go false]
    let w := run.foldl (Writer.handle bitCodec id) (.new 1 10 none)
    (∀ t, w.callers t = .idle) ∧ w.flusher = .done ∧ w.incoming=[true] := by
  decide

end AetherX.ClickHouse
