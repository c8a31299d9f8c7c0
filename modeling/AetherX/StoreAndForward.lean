import Mathlib.Data.List.Basic

/-! The bounded two-lane queue and its sealed spool file. Memory updates and file
writes are separate functions, as they are separate critical sections in the code. -/
namespace AetherX.StoreAndForward

abbrev Bytes := List UInt8

inductive Priority where
  | control
  | bulk
  deriving DecidableEq

structure QueuedItem where
  id : Nat
  priority : Priority
  data : Bytes
  deriving DecidableEq

structure SealedSpoolRecord where
  version : UInt8
  nonce : Bytes
  ciphertext : Bytes
  deriving DecidableEq

inductive SpoolSealError where
  | invalidKeyLength
  | invalidKey
  | randomness
  | invalidRecord
  | authentication
  deriving DecidableEq

def SpoolSealError.text : SpoolSealError → String
  | .invalidKeyLength => "spool key must be exactly 32 bytes (AES-256-GCM)"
  | .invalidKey => "spool key is rejected by the AEAD implementation"
  | .randomness => "secure random nonce generation failed"
  | .invalidRecord => "sealed spool record has an invalid format"
  | .authentication => "sealed spool record authentication failed"

inductive OverflowPolicy where
  | rejectNew
  | evictOldest
  deriving DecidableEq

structure QueueLimits where
  maxItems : Nat
  maxBytes : Nat
  policy : OverflowPolicy
  deriving DecidableEq

inductive EnqueueError where
  | itemTooLarge (size maxBytes : Nat)
  | queueFull (items bytes : Nat)
  deriving DecidableEq

structure Inner where
  control : List QueuedItem
  bulk : List QueuedItem
  nextId : Nat
  pendingBytes : Nat
  totalEnqueued : Nat
  totalFlushed : Nat
  totalRejected : Nat
  totalEvicted : Nat
  flushCount : Nat
  recoveredItems : Nat
  persistErrors : Nat
  deriving DecidableEq

def Inner.new : Inner := ⟨[],[],0,0,0,0,0,0,0,0,0⟩

def Inner.pendingItems (g : Inner) : Nat := g.control.length+g.bulk.length

def Inner.push (g : Inner) (item : QueuedItem) : Inner :=
  match item.priority with
  | .control => { g with control := g.control++[item] }
  | .bulk => { g with bulk := g.bulk++[item] }

def Inner.Full (g : Inner) (limits : QueueLimits) (size : Nat) : Prop :=
  g.pendingItems+1 > limits.maxItems ∨ g.pendingBytes+size > limits.maxBytes

instance (g : Inner) (limits : QueueLimits) (size : Nat) : Decidable (g.Full limits size) :=
  inferInstanceAs (Decidable (_ ∨ _))

def Inner.refuse (g : Inner) : Inner := { g with totalRejected := g.totalRejected+1 }

def Inner.evict (g : Inner) (v : QueuedItem) (rest : List QueuedItem) : Inner :=
  { g with
    bulk := rest
    pendingBytes := g.pendingBytes-v.data.length
    totalEvicted := g.totalEvicted+1 }

/- The loop itself; the flag says whether something was evicted. A refusal keeps what
   was evicted before it. -/
def makeRoom (limits : QueueLimits) (size : Nat) (g : Inner) (compactNeeded : Bool) :
    Inner × Except EnqueueError Bool :=
  if g.Full limits size then
    if limits.policy = .rejectNew then
      (g.refuse, .error (.queueFull g.pendingItems g.pendingBytes))
    else
      match _ : g.bulk with
      | v::rest => makeRoom limits size (g.evict v rest) true
      | [] => (g.refuse, .error (.queueFull g.pendingItems g.pendingBytes))
  else (g, .ok compactNeeded)
termination_by g.bulk.length
decreasing_by simp_all [Inner.evict]

def Inner.enqueueLocked (g : Inner) (limits : QueueLimits) (priority : Priority) (data : Bytes) :
    Inner × Except EnqueueError (Nat × Bool) :=
  if data.length > limits.maxBytes then
    (g.refuse, .error (.itemTooLarge data.length limits.maxBytes))
  else
    match makeRoom limits data.length g false with
    | (g, .error e) => (g, .error e)
    | (g, .ok compactNeeded) =>
      let id := g.nextId
      (({ g with
          nextId := g.nextId+1
          pendingBytes := g.pendingBytes+data.length
          totalEnqueued := g.totalEnqueued+1 } : Inner).push ⟨id,priority,data⟩,
        .ok (id, compactNeeded))

def Inner.drainLocked (g : Inner) : Inner × List QueuedItem :=
  let out := g.control++g.bulk
  ({ g with
      control := []
      bulk := []
      pendingBytes := 0
      totalFlushed := g.totalFlushed+out.length
      flushCount := g.flushCount+1 }, out)

/- What the queue calls into: the serializer, and a sealer whose n-th call draws its
   own nonce. -/
structure Codec where
  itemToVec : QueuedItem → Option Bytes
  itemFromSlice : Bytes → Option QueuedItem
  recordToVec : SealedSpoolRecord → Option Bytes
  recordFromSlice : Bytes → Option SealedSpoolRecord
  sealRecord : Nat → Bytes → Except SpoolSealError SealedSpoolRecord
  unsealRecord : SealedSpoolRecord → Except SpoolSealError Bytes

/- Exact round trips, and a record text that is one nonempty line. -/
structure Codec.Exact (codec : Codec) : Prop where
  item : ∀ item, ∃ text, codec.itemToVec item=some text ∧ codec.itemFromSlice text=some item
  sealing : ∀ n plaintext, ∃ record, codec.sealRecord n plaintext = .ok record ∧
    codec.unsealRecord record = .ok plaintext
  record : ∀ record, ∃ text, codec.recordToVec record=some text ∧
    codec.recordFromSlice text=some record ∧ (10 : UInt8)∉text
  empty : codec.recordFromSlice []=none

/- The spool file, if it exists, and the index of the sealer's next draw. -/
structure Spool where
  file : Option Bytes
  seals : Nat

structure Queue where
  inner : Inner
  limits : QueueLimits
  spool : Option Spool

/- How a file write ends. A failed append may leave the first bytes of its line. -/
inductive WriteResult where
  | done
  | failed (written : Nat)

structure IoError where
  message : String
  deriving DecidableEq

def newline : UInt8 := 10

def sealedSpoolMagic : Bytes :=
  ("AETHER-SPOOL-AES-256-GCM-V1".toList.map fun c => UInt8.ofNat c.toNat)++[newline]

def Queue.withLimits (limits : QueueLimits) : Queue := ⟨Inner.new,limits,none⟩

section
variable (codec : Codec)

def Codec.line (n : Nat) (item : QueuedItem) : Option Bytes :=
  (codec.itemToVec item).bind fun serialized =>
    (codec.sealRecord n serialized).toOption.bind codec.recordToVec

def Queue.persistError (q : Queue) (n : Nat) : Queue :=
  { q with inner := { q.inner with persistErrors := q.inner.persistErrors+n } }

def Queue.appendSpool (r : WriteResult) (id : Nat) (q : Queue) : Queue :=
  match q.spool with
  | none => q
  | some spool =>
    let found := (q.inner.control++q.inner.bulk).find? fun item => item.id=id
    match found.bind (codec.line spool.seals) with
    | none => { q with spool := some ⟨spool.file,spool.seals+1⟩ }.persistError 1
    | some line =>
      let old := spool.file.getD []
      match r with
      | .done => { q with spool := some ⟨some (old++line++[newline]),spool.seals+1⟩ }
      | .failed written =>
        { q with spool := some ⟨some (old++(line++[newline]).take written),
            spool.seals+1⟩ }.persistError 1

/- The lines of a whole lane after the other, and how many items failed to encode. -/
def Codec.encodeItems (n : Nat) : List QueuedItem → Bytes × Nat
  | [] => ([], 0)
  | item::rest =>
    let (buf, errors) := Codec.encodeItems (n+1) rest
    match codec.line n item with
    | some line => (line++newline::buf, errors)
    | none => (buf, errors+1)

/- Written to a temporary file and renamed: a failure leaves the old file. -/
def Queue.rewriteSpool (r : WriteResult) (q : Queue) : Queue :=
  match q.spool with
  | none => q
  | some spool =>
    let items := q.inner.control++q.inner.bulk
    let (buf, encodeErrors) := codec.encodeItems spool.seals items
    let seals := spool.seals+items.length
    match r with
    | .done =>
      { q with spool := some ⟨some (sealedSpoolMagic++buf),seals⟩ }.persistError encodeErrors
    | .failed _ => { q with spool := some ⟨spool.file,seals⟩ }.persistError (encodeErrors+1)

/- The loop over the lines of a spool. Only a last line without its newline may be
   unreadable, and then it is skipped. -/
def Codec.parseLines (hasTornTail : Bool) : List Bytes → Except IoError (List QueuedItem)
  | [] => .ok []
  | line::rest =>
    if line=[] then Codec.parseLines hasTornTail rest
    else
      let isTornTail := hasTornTail && rest.isEmpty
      match codec.recordFromSlice line with
      | none =>
        if isTornTail then Codec.parseLines hasTornTail rest
        else .error ⟨"sealed spool contains an invalid non-trailing record"⟩
      | some record =>
        match codec.unsealRecord record with
        | .error error =>
          .error ⟨"sealed spool record cannot be opened: " ++ error.text⟩
        | .ok plaintext =>
          match codec.itemFromSlice plaintext with
          | some item => (Codec.parseLines hasTornTail rest).map (item :: ·)
          | none =>
            if isTornTail then Codec.parseLines hasTornTail rest
            else .error ⟨"sealed spool authenticated payload is not a queued item"⟩

def Codec.parseSpool (bytes : Bytes) : Except IoError (List QueuedItem) :=
  if bytes=[] then .ok []
  else if sealedSpoolMagic.isPrefixOf bytes then
    let records := bytes.drop sealedSpoolMagic.length
    codec.parseLines (records.getLast? ≠ some newline) (records.splitOn newline)
  else
    .error ⟨"plaintext or unknown spool format; refusing to overwrite without a migration"⟩
end

/- Recovery of one item, under the same limits as the live path. -/
def recoverItem (limits : QueueLimits) (g : Inner) (item : QueuedItem) : Inner :=
  let size := item.data.length
  if g.pendingItems ≥ limits.maxItems ∨ g.pendingBytes+size > limits.maxBytes then g.refuse
  else
    ({ g with
        nextId := max g.nextId (item.id+1)
        pendingBytes := g.pendingBytes+size
        recoveredItems := g.recoveredItems+1 } : Inner).push item

variable (codec : Codec)

/- A spool that does not exist yet is an empty one. -/
def Codec.readSpool : Option Bytes → Except IoError (List QueuedItem)
  | none => .ok []
  | some bytes => codec.parseSpool bytes

/- open, on the file found at the path. -/
def Queue.openSpool (limits : QueueLimits) (r : WriteResult) (spool : Spool) :
    Except IoError Queue :=
  (codec.readSpool spool.file).map fun items =>
    Queue.rewriteSpool codec r ⟨items.foldl (recoverItem limits) Inner.new,limits,some spool⟩

def Queue.tryEnqueue (r : WriteResult) (priority : Priority) (data : Bytes) (q : Queue) :
    Queue × Except EnqueueError Nat :=
  match q.inner.enqueueLocked q.limits priority data with
  | (g, .error e) => ({ q with inner := g }, .error e)
  | (g, .ok (id, compactNeeded)) =>
    let q := { q with inner := g }
    (if compactNeeded then q.rewriteSpool codec r else q.appendSpool codec r id, .ok id)

def Queue.flush (r : WriteResult) (q : Queue) : Queue × List QueuedItem :=
  let (g, out) := q.inner.drainLocked
  (({ q with inner := g }).rewriteSpool codec r, out)

def Queue.persist (r : WriteResult) (q : Queue) : Queue := q.rewriteSpool codec r

end AetherX.StoreAndForward
