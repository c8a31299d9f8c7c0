import AetherX.SpoolAgreement

/-! A spool whose appends may stop in the middle of their line. As long as no complete line
follows torn bytes, opening the file succeeds and gives back every pending item whose
write completed. -/
namespace AetherX.SpoolRecovery
open StoreAndForward QueueAccounting SpoolAgreement Machine List

section
variable {codec : Codec}

/- Bytes that an append of a record can leave when it stops early. -/
def Piece (codec : Codec) (p : Bytes) : Prop :=
  p≠[] ∧ ∃ record text, codec.recordToVec record=some text ∧ p <+: text

/-- Torn record texts are no records: neither a strict prefix of one nor several in a row. -/
structure TornUnreadable (codec : Codec) : Prop where
  strict : ∀ record text, codec.recordToVec record=some text →
    ∀ p, p <+: text → p≠text → codec.recordFromSlice p=none
  joined : ∀ p p', Piece codec p → Piece codec p' →
    ∀ rest : List Bytes, (∀ x∈rest, Piece codec x) →
      codec.recordFromSlice (p++(p'++rest.flatten))=none

/- What an append of this item can leave when it stops early. -/
def TornOf (codec : Codec) (p : Bytes) (item : QueuedItem) : Prop :=
  p≠[] ∧ ∃ n line, codec.line n item=some line ∧ p <+: line

variable {item : QueuedItem} {line : Bytes} {pieces : List Bytes} {torn : List QueuedItem}

theorem line_record {n : Nat} (h : codec.line n item=some line) : ∃ record, codec.recordToVec record=some line := by
  obtain ⟨serialized,-,h⟩ := Option.bind_eq_some_iff.mp h
  obtain ⟨record,-,h⟩ := Option.bind_eq_some_iff.mp h
  exact ⟨record,h⟩

theorem encodes_of_line (hc : codec.Exact) {n : Nat} (h : codec.line n item=some line) : Encodes codec line item := by
  obtain ⟨line',hline',henc⟩ := line_encodes hc n item
  rw [h] at hline'
  cases hline'
  exact henc

theorem TornOf.piece {p : Bytes} (h : TornOf codec p item) : Piece codec p := by
  obtain ⟨hne,n,line,hline,hp⟩ := h
  obtain ⟨record,hrecord⟩ := line_record hline
  exact ⟨hne,record,line,hrecord,hp⟩

theorem TornOf.oneLine (hc : codec.Exact) {p : Bytes} (h : TornOf codec p item) : newline∉p := by
  obtain ⟨-,n,line,hline,hp⟩ := h
  exact fun hmem => (encodes_of_line hc hline).oneLine (hp.subset hmem)

theorem pieces_of_torn (h : List.Forall₂ (TornOf codec) pieces torn) : ∀ p∈pieces, Piece codec p := by
  induction h with
  | nil => simp
  | cons hp _ ih => exact forall_mem_cons.mpr ⟨hp.piece,ih⟩

theorem oneLine_of_torn (hc : codec.Exact) (h : List.Forall₂ (TornOf codec) pieces torn) : newline∉pieces.flatten := by
  induction h with
  | nil => simp
  | cons hp _ ih =>
    rw [flatten_cons,mem_append,not_or]
    exact ⟨hp.oneLine hc,ih⟩

/- Torn bytes at the end are skipped, unless they lack nothing but the newline. -/
theorem parseLines_torn (hc : codec.Exact) (ht : TornUnreadable codec)
    (h : List.Forall₂ (TornOf codec) pieces torn) :
    ∃ extra, extra <+: torn ∧ codec.parseLines true [pieces.flatten] = .ok extra := by
  have hskip : codec.recordFromSlice pieces.flatten=none →
      codec.parseLines true [pieces.flatten] = .ok [] := by
    intro hnone
    by_cases hnil : pieces.flatten=[]
    · rw [Codec.parseLines,if_pos hnil]
      rfl
    · rw [Codec.parseLines,if_neg hnil]
      simp only [hnone]
      rfl
  cases h with
  | nil => exact ⟨[], nil_prefix,rfl⟩
  | @cons p item pieces torn hp hrest =>
    cases hrest with
    | nil =>
      obtain ⟨hne,n,line,hline,hpre⟩ := hp
      obtain ⟨record,hrecord⟩ := line_record hline
      by_cases hwhole : p=line
      · subst hwhole
        refine ⟨[item],prefix_rfl,?_⟩
        rw [flatten_singleton]
        exact parseLines_encoded true (.cons (encodes_of_line hc hline) .nil) []
      · refine ⟨[], nil_prefix,hskip ?_⟩
        simpa using ht.strict record line hrecord p hpre hwhole
    | cons hp' hrest =>
      refine ⟨[], nil_prefix,hskip ?_⟩
      rw [flatten_cons,flatten_cons]
      exact ht.joined _ _ hp.piece hp'.piece _ (pieces_of_torn hrest)

/-- A file of whole lines with torn bytes after them. -/
def TornSpool (codec : Codec) (file : Bytes) (items torn : List QueuedItem) : Prop :=
  ∃ whole pieces, file=whole++pieces.flatten ∧ Spooled codec whole items ∧
    List.Forall₂ (TornOf codec) pieces torn

theorem getLast?_append_torn (hc : codec.Exact) (h : List.Forall₂ (TornOf codec) pieces torn)
    (hne : torn≠[]) (file : Bytes) : (file++pieces.flatten).getLast? ≠ some newline := by
  cases h with
  | nil => exact absurd rfl hne
  | @cons p item pieces torn hp hrest =>
    have hflat : (p::pieces).flatten≠[] := by
      rw [flatten_cons]
      exact append_ne_nil_of_left_ne_nil hp.1 _
    intro hlast
    rw [getLast?_append_of_ne_nil _ hflat] at hlast
    exact oneLine_of_torn hc (.cons hp hrest) (mem_of_getLast? hlast)

theorem parseSpool_torn (hc : codec.Exact) (ht : TornUnreadable codec) {file : Bytes}
    {items : List QueuedItem} (h : TornSpool codec file items torn) :
    ∃ extra, extra <+: torn ∧ codec.parseSpool file = .ok (items++extra) := by
  obtain ⟨whole,pieces,rfl,hwhole,hpieces⟩ := h
  by_cases hne : torn=[]
  · subst hne
    cases hpieces
    refine ⟨[],prefix_rfl,?_⟩
    rw [flatten_nil,append_nil,append_nil]
    exact parseSpool_spooled hwhole
  · obtain ⟨lines,rfl,hlines⟩ := hwhole
    obtain ⟨extra,hextra,hparse⟩ := parseLines_torn hc ht hpieces
    refine ⟨extra,hextra,?_⟩
    rw [parseSpool_lines hlines,splitOn_oneLine (oneLine_of_torn hc hpieces),
      decide_eq_true (getLast?_append_torn hc hpieces hne _),hparse]
    rfl
end

def pending (q : Queue) : List QueuedItem := q.inner.control++q.inner.bulk

/- The queue, and the items whose write to the file completed. -/
structure Journal where
  queue : Queue
  completed : List QueuedItem

/- A persist writes every pending item. -/
def completedBy (after : Queue) : Op → Outcome → List QueuedItem
  | .enqueue _ _ .done, .accepted item => [item]
  | .persist .done, _ => pending after
  | _, _ => []

def Journal.next (codec : Codec) (s : Journal) (op : Op) : Journal :=
  let (q, outcome) := perform codec s.queue op
  ⟨q,s.completed++completedBy q op outcome⟩

/-- Opening the file succeeds, and with no less room than the queue has it gives back every
pending item whose write completed. -/
def Recovers (codec : Codec) (s : Journal) : Prop :=
  ∃ spool, s.queue.spool=some spool ∧ ∀ limits r,
    ∃ q, Queue.openSpool codec limits r spool = .ok q ∧
      (s.queue.limits.maxItems ≤ limits.maxItems → s.queue.limits.maxBytes ≤ limits.maxBytes →
        ∀ item∈pending s.queue, item∈s.completed → item∈pending q)

section
variable {codec : Codec}

/- The file against memory: whole lines and torn bytes of pending items, in their order. -/
structure Intact (codec : Codec) (limits : QueueLimits) (s : Journal) (file : Bytes)
    (items torn : List QueuedItem) : Prop where
  limits_eq : s.queue.limits=limits
  sound : Sound limits s.queue.inner
  spool : ∃ seals, s.queue.spool=some ⟨some file,seals⟩
  layout : TornSpool codec file items torn
  control : (laneOf .control (items++torn)).Sublist s.queue.inner.control
  bulk : (laneOf .bulk (items++torn)).Sublist s.queue.inner.bulk
  completed : ∀ item∈s.completed, item∈pending s.queue → item∈items
  ids : ∀ item∈s.completed, item.id < s.queue.inner.nextId

def Readable (codec : Codec) (limits : QueueLimits) (s : Journal) : Prop :=
  ∃ file items torn, Intact codec limits s file items torn

theorem bytesOf_sublist {xs ys : List QueuedItem} (h : xs.Sublist ys) : bytesOf xs ≤ bytesOf ys := by
  induction h with
  | slnil => exact Nat.le_refl _
  | cons y _ ih =>
    rw [bytesOf_cons]
    omega
  | cons_cons y _ ih =>
    rw [bytesOf_cons,bytesOf_cons]
    omega

variable {item : QueuedItem} {items torn completed : List QueuedItem} {file : Bytes}
  {limits : QueueLimits} {s : Journal} {q : Queue} {spool : Spool}

theorem mem_lanes (h : item∈items) : item∈laneOf .control items++laneOf .bulk items := by
  cases hp : item.priority with
  | control => exact mem_append_left _ (mem_filter.mpr ⟨h,by simp [hp]⟩)
  | bulk => exact mem_append_right _ (mem_filter.mpr ⟨h,by simp [hp]⟩)

/- What is on the file fits wherever the queue does. -/
theorem Intact.fits {extra : List QueuedItem} (h : Intact codec limits s file items torn)
    (hextra : extra <+: torn) :
    (items++extra).length ≤ limits.maxItems ∧ bytesOf (items++extra) ≤ limits.maxBytes := by
  obtain ⟨rest,rfl⟩ := hextra
  obtain ⟨hlen,hbytes⟩ := lanes_count (items++(extra++rest))
  have hcontrol := h.control.length_le
  have hbulk := h.bulk.length_le
  have hcontrol' := bytesOf_sublist h.control
  have hbulk' := bytesOf_sublist h.bulk
  have hitems := h.sound.items_le
  have hle := h.sound.bytes_le
  rw [h.sound.bytes] at hle
  rw [Inner.pendingItems] at hitems
  simp only [length_append,bytesOf_append] at hlen hbytes ⊢
  omega

theorem Intact.recovers (hc : codec.Exact) (ht : TornUnreadable codec)
    (h : Intact codec limits s file items torn) : Recovers codec s := by
  obtain ⟨seals,hspool⟩ := h.spool
  obtain ⟨extra,hextra,hparse⟩ := parseSpool_torn hc ht h.layout
  refine ⟨_,hspool,fun limits' r => ?_⟩
  refine ⟨_,by rw [Queue.openSpool,Codec.readSpool,hparse]; rfl,?_⟩
  intro hitems hbytes item hpending hcompleted
  rw [h.limits_eq] at hitems hbytes
  obtain ⟨hfits,hfits'⟩ := h.fits hextra
  obtain ⟨hcontrol,hbulk⟩ := recover_lanes limits' (items++extra) Inner.new
    (by simp only [Inner.pendingItems,Inner.new,length_nil]; omega)
    (by simp only [Inner.new]; omega)
  obtain ⟨n,hn⟩ := rewriteSpool_inner codec r
    ⟨(items++extra).foldl (recoverItem limits') Inner.new,limits',some ⟨some file,seals⟩⟩
  have hmem := mem_lanes (mem_append_left extra (h.completed item hcompleted hpending))
  rw [pending,hn]
  simp only [hcontrol,hbulk]
  exact hmem

theorem readable_of_kept (h : Kept codec limits q)
    (hids : ∀ item∈completed, item.id < q.inner.nextId) :
    Readable codec limits ⟨q,completed⟩ := by
  obtain ⟨hlimits,hs,file,seals,items,hspool,hfile,hcontrol,hbulk⟩ := h
  refine ⟨file,items,[],hlimits,hs,⟨seals,hspool⟩,⟨file,[],by simp,hfile,.nil⟩,?_,?_,?_,hids⟩
  · rw [append_nil,hcontrol]
  · rw [append_nil,hbulk]
  · intro item _ hpending
    rw [pending,← hcontrol,← hbulk] at hpending
    cases mem_append.mp hpending with
    | inl hmem => exact (mem_filter.mp hmem).1
    | inr hmem => exact (mem_filter.mp hmem).1

/- A completed rewrite makes any file readable. -/
theorem readable_rewriteSpool (hc : codec.Exact) (hspool : q.spool=some spool)
    (hs : Sound q.limits q.inner) (hids : ∀ item∈completed, item.id < q.inner.nextId) :
    Readable codec q.limits ⟨q.rewriteSpool codec .done,completed⟩ := by
  apply readable_of_kept (kept_rewriteSpool hc hspool hs)
  obtain ⟨n,hn⟩ := rewriteSpool_inner codec .done q
  rw [hn]
  exact hids

theorem appendSpool_torn {line : Bytes} {seals : Nat} (hspool : q.spool=some ⟨some file,seals⟩)
    (hfound : ((q.inner.control++q.inner.bulk).find? fun x => x.id=item.id)=some item)
    (hline : codec.line seals item=some line) (written : Nat) :
    q.appendSpool codec (.failed written) item.id =
      { q with spool := some ⟨some (file++(line++[newline]).take written),seals+1⟩ }.persistError 1 := by
  simp only [Queue.appendSpool,hspool,hfound,Option.bind_some,hline]
  rfl

theorem accept_nextId (g : Inner) (k : Nat) (priority : Priority) (data : Bytes) :
    (accept g k priority data).nextId=g.nextId+1 := (push_counters _ _).2.2.2.2

theorem accept_sublist {g : Inner} {xs : List QueuedItem}
    (hcontrol : (laneOf .control xs).Sublist g.control) (hbulk : (laneOf .bulk xs).Sublist g.bulk)
    (priority : Priority) (data : Bytes) :
    (laneOf .control (xs++[⟨g.nextId,priority,data⟩])).Sublist
        (accept g 0 priority data).control ∧
      (laneOf .bulk (xs++[⟨g.nextId,priority,data⟩])).Sublist (accept g 0 priority data).bulk := by
  rw [laneOf_append,laneOf_append]
  cases priority with
  | control => simpa [accept,evictFirst_zero,Inner.push,laneOf] using ⟨hcontrol,hbulk⟩
  | bulk => simpa [accept,evictFirst_zero,Inner.push,laneOf] using ⟨hcontrol,hbulk⟩

/- Appends may stop in the middle of their line; every other write completes. -/
def OnlyAppendsTear (codec : Codec) (q : Queue) : Op → Prop
  | .enqueue _ _ .done => True
  | .enqueue priority data (.failed written) =>
    (∀ id, (q.inner.enqueueLocked q.limits priority data).2 ≠ .ok (id, true)) ∧
      ∀ spool line, q.spool=some spool →
        codec.line spool.seals ⟨q.inner.nextId,priority,data⟩=some line → written ≤ line.length
  | .flush r => r = .done
  | .persist r => r = .done

def Torn (q : Queue) : Prop :=
  ∃ file seals, q.spool=some ⟨some file,seals⟩ ∧ file.getLast? ≠ some newline

/-- No complete line is appended to a torn file, and no call evicts in vain. -/
def Unmerged (q : Queue) : Op → Prop
  | .enqueue _ data r => ¬ EvictsInVain q.limits q.inner data ∧
    (r = .done → data.length ≤ q.limits.maxBytes → ¬ q.inner.Full q.limits data.length → ¬ Torn q)
  | .flush _ => True
  | .persist _ => True

theorem Intact.torn_eq_nil (hc : codec.Exact) (h : Intact codec limits s file items torn)
    (hwhole : ¬ Torn s.queue) : torn=[] := by
  by_contra hne
  obtain ⟨seals,hspool⟩ := h.spool
  obtain ⟨whole,pieces,rfl,-,hpieces⟩ := h.layout
  exact hwhole ⟨_,seals,hspool,getLast?_append_torn hc hpieces hne whole⟩

theorem Intact.mem_accepted (h : Intact codec limits s file items torn) {priority : Priority}
    {data : Bytes} (hcompleted : item∈s.completed)
    (hmem : item∈(accept s.queue.inner 0 priority data).control++(accept s.queue.inner 0 priority data).bulk) : item∈items := by
  cases mem_accept.mp hmem with
  | inl hold => exact h.completed item hcompleted hold
  | inr hnew =>
    have hid := h.ids item hcompleted
    rw [hnew] at hid
    exact absurd hid (Nat.lt_irrefl _)

/- The new item takes the next id, whatever was evicted for it. -/
theorem Intact.ids_accept (h : Intact codec limits s file items torn) (k : Nat)
    (priority : Priority) (data : Bytes) :
    ∀ item∈s.completed++[⟨s.queue.inner.nextId,priority,data⟩],
      item.id<(accept s.queue.inner k priority data).nextId := by
  intro item hi
  rw [accept_nextId]
  cases mem_append.mp hi with
  | inl hold => exact Nat.lt_succ_of_lt (h.ids item hold)
  | inr hnew =>
    rw [mem_singleton.mp hnew]
    exact Nat.lt_succ_self _

/- The append of an accepted item, when it completes and when it is torn. -/
theorem Intact.append_done (hc : codec.Exact) (h : Intact codec limits s file items torn)
    (priority : Priority) (data : Bytes)
    (hsound : Sound limits (accept s.queue.inner 0 priority data)) (hwhole : ¬ Torn s.queue) :
    Readable codec limits
      ⟨({ s.queue with inner := accept s.queue.inner 0 priority data }).appendSpool codec .done
          s.queue.inner.nextId,
        s.completed++[⟨s.queue.inner.nextId,priority,data⟩]⟩ := by
  obtain ⟨seals,hspool⟩ := h.spool
  obtain rfl := h.torn_eq_nil hc hwhole
  obtain ⟨whole,pieces,rfl,hfile,hpieces⟩ := h.layout
  cases hpieces
  obtain ⟨line,henc,happend⟩ := appendSpool_found hc
    (q := { s.queue with inner := accept s.queue.inner 0 priority data }) hspool
    ⟨s.queue.inner.nextId,priority,data⟩ (find_accepted h.sound priority data)
  have hcontrol := h.control
  have hbulk := h.bulk
  rw [append_nil] at hcontrol hbulk
  obtain ⟨hcontrol',hbulk'⟩ := accept_sublist hcontrol hbulk priority data
  rw [happend]
  refine ⟨_,items++[⟨s.queue.inner.nextId,priority,data⟩],[],h.limits_eq,hsound,
    ⟨_,rfl⟩,⟨_,[],(append_nil _).symm,?_,.nil⟩,?_,?_,?_,h.ids_accept 0 priority data⟩
  · simpa using spooled_append hfile henc
  · rwa [append_nil]
  · rwa [append_nil]
  · intro item hi hpending
    cases mem_append.mp hi with
    | inl hold => exact mem_append_left _ (h.mem_accepted hold hpending)
    | inr hnew => exact mem_append_right _ hnew

theorem Intact.append_torn (hc : codec.Exact) (h : Intact codec limits s file items torn)
    (priority : Priority) (data : Bytes)
    (hsound : Sound limits (accept s.queue.inner 0 priority data)) (written : Nat)
    (htear : ∀ spool line, s.queue.spool=some spool → codec.line spool.seals ⟨s.queue.inner.nextId,priority,data⟩=some line → written ≤ line.length) :
    Readable codec limits
      ⟨({ s.queue with inner := accept s.queue.inner 0 priority data }).appendSpool codec
          (.failed written) s.queue.inner.nextId,s.completed⟩ := by
  obtain ⟨seals,hspool⟩ := h.spool
  obtain ⟨line,hline,-⟩ := line_encodes hc seals ⟨s.queue.inner.nextId,priority,data⟩
  have hle := htear _ line hspool hline
  have hids : ∀ item∈s.completed, item.id<(accept s.queue.inner 0 priority data).nextId :=
    fun item hi => h.ids_accept 0 priority data item (mem_append_left _ hi)
  obtain ⟨whole,pieces,rfl,hfile,hpieces⟩ := h.layout
  obtain ⟨hcontrol,hbulk⟩ := accept_sublist h.control h.bulk priority data
  rw [appendSpool_torn (q := { s.queue with inner := accept s.queue.inner 0 priority data })
    hspool (find_accepted h.sound priority data) hline,take_append_of_le_length hle]
  -- a write that stops before its first byte leaves the file as it is
  by_cases hzero : line.take written=[]
  · refine ⟨whole++pieces.flatten,items,torn,h.limits_eq,hsound.persistErrors _,
      ⟨seals+1,by rw [hzero,append_nil]; rfl⟩,h.layout,?_,?_,
      fun item hi => h.mem_accepted hi,hids⟩
    · exact ((sublist_append_left _ _).filter _).trans hcontrol
    · exact ((sublist_append_left _ _).filter _).trans hbulk
  · refine ⟨_,items,torn++[⟨s.queue.inner.nextId,priority,data⟩],h.limits_eq,
      hsound.persistErrors _,⟨_,rfl⟩,⟨whole,pieces++[line.take written],by simp,hfile,
        rel_append hpieces (.cons ⟨hzero,seals,line,hline, take_prefix _ _⟩ .nil)⟩,
      ?_,?_,fun item hi => h.mem_accepted hi,hids⟩
    · rwa [← append_assoc]
    · rwa [← append_assoc]

theorem next_append {priority : Priority} {data : Bytes} {r : WriteResult}
    (henq : s.queue.inner.enqueueLocked s.queue.limits priority data=(accept s.queue.inner 0 priority data, .ok (s.queue.inner.nextId, false))) :
    s.next codec (.enqueue priority data r) =
      ⟨({ s.queue with inner := accept s.queue.inner 0 priority data }).appendSpool codec r
          s.queue.inner.nextId,
        s.completed++completedBy s.queue (.enqueue priority data r)
          (.accepted ⟨s.queue.inner.nextId,priority,data⟩)⟩ := by
  simp only [Journal.next,perform,Queue.tryEnqueue,henq]
  cases r <;> rfl

theorem Intact.enqueue (hc : codec.Exact) (h : Intact codec limits s file items torn)
    (priority : Priority) (data : Bytes) (r : WriteResult)
    (htear : OnlyAppendsTear codec s.queue (.enqueue priority data r))
    (hwhole : Unmerged s.queue (.enqueue priority data r)) :
    Readable codec limits (s.next codec (.enqueue priority data r)) := by
  obtain rfl := h.limits_eq
  cases enqueueLocked_refused_or_accepted h.sound priority hwhole.1 with
  | inl hrefused =>
    obtain ⟨hstate,e,he⟩ := hrefused
    have henq : s.queue.inner.enqueueLocked s.queue.limits priority data =
        (s.queue.inner.refuse, .error e) := Prod.ext hstate he
    have hnext : s.next codec (.enqueue priority data r) =
        ⟨{ s.queue with inner := s.queue.inner.refuse },s.completed⟩ := by
      simp only [Journal.next,perform,Queue.tryEnqueue,henq]
      cases r <;> simp [Outcome.ofEnqueue,completedBy]
    rw [hnext]
    exact ⟨file,items,torn,rfl,h.sound.refuse,h.spool,h.layout,h.control,h.bulk,
      h.completed,h.ids⟩
  | inr haccepted =>
    obtain ⟨k,hk,henq,hfull⟩ := haccepted
    have hsound := h.sound.accept hk priority data hfull
    cases k with
    | zero =>
      rw [evictFirst_zero] at hfull
      have hsize : data.length ≤ s.queue.limits.maxBytes := by
        rw [Inner.Full] at hfull
        omega
      rw [next_append henq]
      cases r with
      | done => exact h.append_done hc priority data hsound (hwhole.2 rfl hsize hfull)
      | failed written =>
        simpa only [completedBy,append_nil] using
          h.append_torn hc priority data hsound written htear.2
    | succ k =>
      have hdone : r = .done := by
        cases r with
        | done => rfl
        | failed written => exact absurd (congrArg Prod.snd henq) (htear.1 _)
      subst hdone
      obtain ⟨seals,hspool⟩ := h.spool
      have hnext : s.next codec (.enqueue priority data .done) =
          ⟨({ s.queue with inner := accept s.queue.inner (k+1) priority data }).rewriteSpool codec .done,
            s.completed++[⟨s.queue.inner.nextId,priority,data⟩]⟩ := by
        simp only [Journal.next,perform,Queue.tryEnqueue,henq]
        rfl
      rw [hnext]
      apply readable_rewriteSpool (q := { s.queue with inner := accept s.queue.inner (k+1) priority data })
        hc hspool hsound
      exact h.ids_accept (k+1) priority data

theorem readable_next (hc : codec.Exact) (h : Readable codec limits s) {op : Op}
    (htear : OnlyAppendsTear codec s.queue op) (hwhole : Unmerged s.queue op) : Readable codec limits (s.next codec op) := by
  obtain ⟨file,items,torn,h⟩ := h
  cases op with
  | enqueue priority data r => exact h.enqueue hc priority data r htear hwhole
  | flush r =>
    cases htear
    obtain rfl := h.limits_eq
    obtain ⟨seals,hspool⟩ := h.spool
    have hids : ∀ item∈s.completed++[], item.id < s.queue.inner.drainLocked.1.nextId := by
      rw [append_nil]
      exact h.ids
    exact readable_rewriteSpool (q := { s.queue with inner := s.queue.inner.drainLocked.1 }) hc
      hspool h.sound.drainLocked hids
  | persist r =>
    cases htear
    obtain rfl := h.limits_eq
    obtain ⟨seals,hspool⟩ := h.spool
    apply readable_rewriteSpool hc hspool h.sound
    obtain ⟨n,hn⟩ := rewriteSpool_inner codec .done s.queue
    intro item hi
    cases mem_append.mp hi with
    | inl hold => exact h.ids item hold
    | inr hnew =>
      rw [completedBy,pending,Queue.persist,hn] at hnew
      exact h.sound.ids item hnew

/- The journal of a queue that was just opened: open wrote every item it recovered. -/
def Journal.opened (q : Queue) : Journal := ⟨q,pending q⟩

theorem readable_opened (hc : codec.Exact) (h : Queue.openSpool codec limits .done spool = .ok q) :
    Readable codec limits (.opened q) := by
  have hkept := kept_openSpool hc h
  exact readable_of_kept hkept hkept.sound.ids

def Step (codec : Codec) : Journal → Op → Journal → Prop :=
  Guarded (fun s op => OnlyAppendsTear codec s.queue op ∧ Unmerged s.queue op) (Journal.next codec)

theorem readable_run (hc : codec.Exact) (hopen : Queue.openSpool codec limits .done spool = .ok q)
    {ops : List Op} (hrun : Run (Step codec) (.opened q) ops s) : Readable codec limits s := by
  refine hrun.invariant (readable_opened hc hopen) ?_
  intro s op t hs hstep
  obtain ⟨⟨htear,hwhole⟩,rfl⟩ := hstep
  exact readable_next hc hs htear hwhole

/-- From an opened spool, through calls whose appends may be torn: as long as no complete line
is appended to a torn file and no call evicts in vain, opening the file again succeeds and gives
back every pending item whose write completed. -/
theorem torn_spool_recovers (codec : Codec) (hc : codec.Exact) (ht : TornUnreadable codec)
    (limits : QueueLimits) (spool : Spool) (q : Queue)
    (hopen : Queue.openSpool codec limits .done spool = .ok q) (ops : List Op) (s : Journal)
    (hrun : Run (Step codec) (.opened q) ops s) : Recovers codec s := by
  obtain ⟨file,items,torn,h⟩ := readable_run hc hopen hrun
  exact h.recovers hc ht
end

theorem piece_head {p : Bytes} (h : Piece SpoolJson.jsonCodec p) :
    ∃ body, p=SpoolJson.openBrace::body := by
  obtain ⟨hne,record,text,htext,hp⟩ := h
  cases htext
  obtain ⟨body,hbody⟩ := SpoolJson.recordText_head record
  cases p with
  | nil => exact absurd rfl hne
  | cons b p =>
    rw [hbody,cons_prefix_cons] at hp
    exact ⟨p,by rw [hp.1]⟩

theorem jsonCodec_tornUnreadable : TornUnreadable SpoolJson.jsonCodec where
  strict record text htext p hp hne := by
    cases htext
    obtain ⟨body,hbody,hclose⟩ := SpoolJson.recordText_close record
    rw [hbody] at hp hne
    have hbefore : p <+: body := (prefix_concat_iff.mp hp).resolve_left hne
    apply Option.eq_none_iff_forall_ne_some.mpr
    intro record' hread
    have hlast := (SpoolJson.readRecord_shape hread).2
    exact hclose (hbefore.subset (mem_of_getLast? hlast))
  joined p p' hp hp' rest _ := by
    obtain ⟨body,rfl⟩ := piece_head hp
    obtain ⟨body',rfl⟩ := piece_head hp'
    apply Option.eq_none_iff_forall_ne_some.mpr
    intro record hread
    have hone := (SpoolJson.readRecord_shape hread).1
    simp at hone

/- The second append stops after five bytes of its line. -/
def tornOps : List Op := [.enqueue .control [1] .done,.enqueue .bulk [2] (.failed 5)]

def tornJournal : Journal :=
  tornOps.foldl (Journal.next SpoolJson.jsonCodec) (.opened (freshQueue ⟨10,100,.rejectNew⟩))

theorem tornJournal_run : Run (Step SpoolJson.jsonCodec) (.opened (freshQueue ⟨10,100,.rejectNew⟩))
    tornOps tornJournal := by
  refine .cons ⟨⟨trivial,?_,?_⟩,rfl⟩ (.cons ⟨⟨⟨?_,?_⟩,?_,?_⟩,rfl⟩ (.refl _))
  · exact of_decide_eq_false (by decide +kernel)
  · intro _ _ _ htorn
    obtain ⟨file,seals,hspool,hlast⟩ := htorn
    cases hspool
    exact hlast (by decide +kernel)
  · intro id
    rw [enqueueLocked_fits _ _ _ _ (by decide +kernel) (by decide +kernel)]
    simp
  · intro spool line _ hline
    cases hline
    rw [SpoolJson.recordText,length_append]
    exact Nat.le_trans (by decide) (Nat.le_add_right _ _)
  · exact of_decide_eq_false (by decide +kernel)
  · intro hdone
    cases hdone

theorem torn_spool_recovers_first :
    (⟨0,.control,[1]⟩ : QueuedItem)∈tornJournal.completed ∧ pending tornJournal.queue =
      [⟨0,.control,[1]⟩,⟨1,.bulk,[2]⟩] ∧ Recovers SpoolJson.jsonCodec tornJournal :=
  ⟨by decide +kernel,by decide +kernel,
    torn_spool_recovers SpoolJson.jsonCodec SpoolJson.jsonCodec_exact jsonCodec_tornUnreadable _ _ _
      (openSpool_fresh ⟨10,100,.rejectNew⟩) tornOps tornJournal tornJournal_run⟩

/- The next append completes, right after the five bytes. -/
theorem torn_spool_unreadable :
    ¬ ∀ codec : Codec, codec.Exact → TornUnreadable codec → ∀ limits spool q,
      Queue.openSpool codec limits .done spool = .ok q → ∀ ops s,
        Run (Guarded (fun s op => OnlyAppendsTear codec s.queue op) (Journal.next codec)) (.opened q)
          ops s → Recovers codec s := by
  intro hall
  have hlast : Run (Guarded (fun s op => OnlyAppendsTear SpoolJson.jsonCodec s.queue op)
      (Journal.next SpoolJson.jsonCodec)) tornJournal [.enqueue .control [3] .done] _ :=
    .cons ⟨trivial,rfl⟩ (.refl _)
  obtain ⟨spool,hspool,hopens⟩ := hall _ SpoolJson.jsonCodec_exact jsonCodec_tornUnreadable _ _ _
    (openSpool_fresh ⟨10,100,.rejectNew⟩) (tornOps++[.enqueue .control [3] .done]) _
    ((tornJournal_run.mono fun s op t hstep => ⟨hstep.1.1,hstep.2⟩).append hlast)
  obtain ⟨q,hopen,-⟩ := hopens ⟨10,100,.rejectNew⟩ .done
  have hrefused : ((tornJournal.next SpoolJson.jsonCodec (.enqueue .control [3] .done)).queue.spool.map
      fun spool => (Queue.openSpool SpoolJson.jsonCodec ⟨10,100,.rejectNew⟩ .done spool).isOk) =
      some false := by decide +kernel
  rw [hspool,Option.map_some,hopen] at hrefused
  cases hrefused

end AetherX.SpoolRecovery
