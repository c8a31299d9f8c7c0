import AetherX.QueueAccounting
import Mathlib.Data.List.Forall2

/-! The spool file against memory. Every write of the queue leaves whole lines that
parse to known items, so opening the file gives the lanes back, unless evictions
were never written. -/
namespace AetherX.SpoolAgreement
open StoreAndForward QueueAccounting Machine List

section
variable {codec : Codec}

structure Encodes (codec : Codec) (line : Bytes) (item : QueuedItem) : Prop where
  oneLine : newline∉line
  nonempty : line≠[]
  reads : ∃ record plaintext, codec.recordFromSlice line=some record ∧
    codec.unsealRecord record = .ok plaintext ∧ codec.itemFromSlice plaintext=some item

/-- A well-formed spool with these items in file order. -/
def Spooled (codec : Codec) (file : Bytes) (items : List QueuedItem) : Prop :=
  ∃ lines, file=sealedSpoolMagic++(lines.map (· ++ [newline])).flatten ∧
    List.Forall₂ (Encodes codec) lines items

theorem line_encodes (hc : codec.Exact) (n : Nat) (item : QueuedItem) :
    ∃ line, codec.line n item=some line ∧ Encodes codec line item := by
  obtain ⟨serialized,hser,hitem⟩ := hc.item item
  obtain ⟨record,hseal,hunseal⟩ := hc.sealing n serialized
  obtain ⟨line,hline,hread,hnewline⟩ := hc.record record
  refine ⟨line,?_,hnewline,?_,record,serialized,hread,hunseal,hitem⟩
  · rw [Codec.line,hser,Option.bind_some,hseal]
    exact hline
  · intro he
    rw [he,hc.empty] at hread
    cases hread

theorem encodeItems_spooled (hc : codec.Exact) (n : Nat) (items : List QueuedItem) :
    (codec.encodeItems n items).2=0 ∧
      Spooled codec (sealedSpoolMagic++(codec.encodeItems n items).1) items := by
  induction items generalizing n with
  | nil => exact ⟨rfl,[],rfl,.nil⟩
  | cons item items ih =>
    obtain ⟨line,hline,henc⟩ := line_encodes hc n item
    obtain ⟨herrors,lines,hfile,hlines⟩ := ih (n+1)
    have hbuf := append_cancel_left hfile
    simp only [Codec.encodeItems,hline]
    exact ⟨herrors,line::lines,by simp [hbuf],.cons henc hlines⟩

variable {items : List QueuedItem} {lines : List Bytes}

theorem spooled_append {file line : Bytes} {item : QueuedItem} (h : Spooled codec file items)
    (henc : Encodes codec line item) :
    Spooled codec (file++line++[newline]) (items++[item]) := by
  obtain ⟨lines,rfl,hlines⟩ := h
  exact ⟨lines++[line],by simp,rel_append hlines (.cons henc .nil)⟩

theorem splitOn_oneLine {line : Bytes} (h : newline∉line) : line.splitOn newline=[line] := by
  have hsingle : ([newline].intercalate [line]).splitOn newline=[line] :=
    splitOn_intercalate newline (by simpa using h) (cons_ne_nil _ _)
  rwa [intercalate_singleton] at hsingle

theorem splitOn_lines (lines : List Bytes) (h : ∀ line∈lines, newline∉line) (tail : Bytes) :
    ((lines.map (· ++ [newline])).flatten++tail).splitOn newline =
      lines++tail.splitOn newline := by
  induction lines with
  | nil => rfl
  | cons line lines ih =>
    have hsplit : (line++newline::((lines.map (· ++ [newline])).flatten++tail)).splitOn newline =
        line.splitOn newline++((lines.map (· ++ [newline])).flatten++tail).splitOn newline :=
      splitOnP_append_cons _ _ (beq_self_eq_true newline)
    rw [map_cons,flatten_cons,append_assoc,append_assoc,
      singleton_append,hsplit,splitOn_oneLine (h line mem_cons_self),
      ih fun l hl => h l (mem_cons_of_mem _ hl)]
    rfl

theorem parseLines_encoded (torn : Bool) (h : List.Forall₂ (Encodes codec) lines items)
    (rest : List Bytes) :
    codec.parseLines torn (lines++rest)=(codec.parseLines torn rest).map (items ++ ·) := by
  induction h with
  | nil =>
    rw [nil_append]
    cases codec.parseLines torn rest <;> rfl
  | @cons line item lines items henc _ ih =>
    obtain ⟨-,hne,record,plaintext,hread,hunseal,hitem⟩ := henc
    rw [cons_append,Codec.parseLines,if_neg hne]
    simp only [hread,hunseal,hitem,ih]
    cases codec.parseLines torn rest <;> rfl

theorem oneLine_of_encoded (h : List.Forall₂ (Encodes codec) lines items) : ∀ line∈lines, newline∉line := by
  induction h with
  | nil => simp
  | cons henc _ ih => exact forall_mem_cons.mpr ⟨henc.oneLine,ih⟩

/- Whole lines are read first, then whatever follows them. -/
theorem parseSpool_lines (h : List.Forall₂ (Encodes codec) lines items) (tail : Bytes) :
    codec.parseSpool (sealedSpoolMagic++(lines.map (· ++ [newline])).flatten++tail) =
      (codec.parseLines (((lines.map (· ++ [newline])).flatten++tail).getLast? ≠ some newline)
        (tail.splitOn newline)).map (items ++ ·) := by
  have hmagic : sealedSpoolMagic≠[] :=
    append_ne_nil_of_right_ne_nil _ (cons_ne_nil _ _)
  rw [append_assoc,Codec.parseSpool,if_neg (by simp [hmagic]),if_pos (by simp)]
  simp only [drop_left,splitOn_lines lines (oneLine_of_encoded h) tail]
  exact parseLines_encoded _ h _

theorem parseSpool_spooled {file : Bytes} (h : Spooled codec file items) : codec.parseSpool file = .ok items := by
  obtain ⟨lines,rfl,hlines⟩ := h
  have hparse := parseSpool_lines hlines []
  rw [append_nil] at hparse
  rw [hparse]
  exact congrArg Except.ok (append_nil items)
end

def laneOf (priority : Priority) (items : List QueuedItem) : List QueuedItem :=
  items.filter fun item => item.priority=priority

theorem laneOf_append (priority : Priority) (xs ys : List QueuedItem) :
    laneOf priority (xs++ys)=laneOf priority xs++laneOf priority ys :=
  filter_append ..

theorem laneOf_same {priority : Priority} {items : List QueuedItem}
    (h : ∀ item∈items, item.priority=priority) : laneOf priority items=items :=
  filter_eq_self.mpr fun item hi => decide_eq_true (h item hi)

theorem laneOf_other {p p' : Priority} (hne : p'≠p) {items : List QueuedItem}
    (h : ∀ item∈items, item.priority=p') : laneOf p items=[] :=
  filter_eq_nil_iff.mpr fun item hi => by simp [h item hi,hne]

theorem lanes_count (items : List QueuedItem) :
    (laneOf .control items).length+(laneOf .bulk items).length=items.length ∧
      bytesOf (laneOf .control items)+bytesOf (laneOf .bulk items)=bytesOf items := by
  induction items with
  | nil => exact ⟨rfl,rfl⟩
  | cons item items ih =>
    obtain ⟨hlen,hbytes⟩ := ih
    simp only [laneOf] at hlen hbytes
    cases hp : item.priority with
    | control => simp [laneOf,hp]; omega
    | bulk => simp [laneOf,hp]; omega

/- Within the limits recovery refuses nothing and only sorts by lane. -/
theorem recover_lanes (limits : QueueLimits) (items : List QueuedItem) (g : Inner)
    (hitems : g.pendingItems+items.length ≤ limits.maxItems)
    (hbytes : g.pendingBytes+bytesOf items ≤ limits.maxBytes) :
    (items.foldl (recoverItem limits) g).control=g.control++laneOf .control items ∧
      (items.foldl (recoverItem limits) g).bulk=g.bulk++laneOf .bulk items := by
  induction items generalizing g with
  | nil => simp [laneOf]
  | cons item items ih =>
    rw [length_cons] at hitems
    rw [bytesOf_cons] at hbytes
    have hroom : ¬ (g.pendingItems ≥ limits.maxItems ∨
        g.pendingBytes+item.data.length > limits.maxBytes) := by omega
    have hstep : recoverItem limits g item=({ g with
        nextId := max g.nextId (item.id+1)
        pendingBytes := g.pendingBytes+item.data.length
        recoveredItems := g.recoveredItems+1 } : Inner).push item := if_neg hroom
    have hcount : (recoverItem limits g item).pendingItems=g.pendingItems+1 := by
      rw [hstep,push_pendingItems]
      rfl
    have hsize : (recoverItem limits g item).pendingBytes =
        g.pendingBytes+item.data.length := by rw [hstep,push_pendingBytes]
    obtain ⟨hc,hb⟩ := ih (recoverItem limits g item) (by omega) (by omega)
    rw [foldl_cons,hc,hb,hstep]
    cases hp : item.priority with
    | control => simp [Inner.push,laneOf,hp]
    | bulk => simp [Inner.push,laneOf,hp]

section
variable {codec : Codec}

/-- The file holds exactly the pending items, each lane in its order. -/
def OnDisk (codec : Codec) (q : Queue) : Prop :=
  ∃ file seals items, q.spool=some ⟨some file,seals⟩ ∧ Spooled codec file items ∧
    laneOf .control items=q.inner.control ∧ laneOf .bulk items=q.inner.bulk

/-- Opening the spool, under the limits of the queue, gives its lanes. -/
def Restores (codec : Codec) (q : Queue) : Prop :=
  ∃ spool, q.spool=some spool ∧ ∃ q', Queue.openSpool codec q.limits .done spool = .ok q' ∧
    q'.inner.control=q.inner.control ∧ q'.inner.bulk=q.inner.bulk

theorem restores_of_onDisk {q : Queue} (h : OnDisk codec q) (hs : Sound q.limits q.inner) :
    Restores codec q := by
  obtain ⟨file,seals,items,hspool,hfile,hcontrol,hbulk⟩ := h
  obtain ⟨hlen,hbytes⟩ := lanes_count items
  have hitems := hs.items_le
  have hle := hs.bytes_le
  rw [hs.bytes] at hle
  rw [hcontrol,hbulk] at hlen hbytes
  rw [Inner.pendingItems] at hitems
  obtain ⟨hc,hb⟩ := recover_lanes q.limits items Inner.new
    (by simp only [Inner.pendingItems,Inner.new,length_nil]; omega)
    (by simp only [Inner.new]; omega)
  refine ⟨_,hspool,_,by rw [Queue.openSpool,Codec.readSpool,parseSpool_spooled hfile]; rfl,?_⟩
  obtain ⟨n,hn⟩ := rewriteSpool_inner codec .done
    ⟨items.foldl (recoverItem q.limits) Inner.new,q.limits,some ⟨some file,seals⟩⟩
  rw [hn]
  exact ⟨hc.trans hcontrol,hb.trans hbulk⟩

theorem onDisk_rewriteSpool (hc : codec.Exact) {q : Queue} {spool : Spool}
    (hspool : q.spool=some spool) (hs : Sound q.limits q.inner) :
    OnDisk codec (q.rewriteSpool codec .done) := by
  obtain ⟨herrors,hfile⟩ :=
    encodeItems_spooled hc spool.seals (q.inner.control++q.inner.bulk)
  refine ⟨_,_,q.inner.control++q.inner.bulk,by rw [Queue.rewriteSpool,hspool]; rfl,hfile,?_⟩
  obtain ⟨n,hn⟩ := rewriteSpool_inner codec .done q
  rw [hn,laneOf_append,laneOf_append,laneOf_same hs.control,laneOf_same hs.bulk,
    laneOf_other (by decide) hs.control,laneOf_other (by decide) hs.bulk]
  exact ⟨append_nil _,rfl⟩

theorem find_id {xs : List QueuedItem} (item : QueuedItem) (hmem : item∈xs)
    (hunique : ∀ x∈xs, x.id=item.id → x=item) :
    (xs.find? fun x => x.id=item.id)=some item := by
  cases hf : xs.find? fun x => x.id=item.id with
  | none =>
    have := find?_eq_none.mp hf item hmem
    simp at this
  | some x =>
    have hid : x.id=item.id := by simpa using find?_some hf
    rw [hunique x (mem_of_find?_eq_some hf) hid]

/- An append whose item is pending adds one line that reads back as the item. -/
theorem appendSpool_found (hc : codec.Exact) {q : Queue} {file : Bytes} {seals : Nat}
    (hspool : q.spool=some ⟨some file,seals⟩) (item : QueuedItem)
    (hfound : ((q.inner.control++q.inner.bulk).find? fun x => x.id=item.id)=some item) :
    ∃ line, Encodes codec line item ∧ q.appendSpool codec .done item.id =
      { q with spool := some ⟨some (file++line++[newline]),seals+1⟩ } := by
  obtain ⟨line,hline,henc⟩ := line_encodes hc seals item
  refine ⟨line,henc,?_⟩
  simp only [Queue.appendSpool,hspool,hfound,Option.bind_some,hline]
  rfl
end

section
variable {codec : Codec}

/-- A call that evicts the whole bulk lane and then still refuses its item: control items and
the newcomer alone exceed a limit. -/
def EvictsInVain (limits : QueueLimits) (g : Inner) (data : Bytes) : Prop :=
  limits.policy = .evictOldest ∧ data.length ≤ limits.maxBytes ∧ g.bulk≠[] ∧
    (limits.maxItems < g.control.length+1 ∨
      limits.maxBytes < bytesOf g.control+data.length)

instance (limits : QueueLimits) (g : Inner) (data : Bytes) :
    Decidable (EvictsInVain limits g data) :=
  inferInstanceAs (Decidable (_ ∧ _ ∧ _ ∧ _))

variable {data : Bytes} {limits : QueueLimits} {spool : Spool}

/-- Apart from that case a refused call leaves both lanes alone. -/
theorem enqueueLocked_refused_or_accepted {g : Inner} (hs : Sound limits g) (priority : Priority)
    (hv : ¬ EvictsInVain limits g data) :
    ((g.enqueueLocked limits priority data).1=g.refuse ∧
      ∃ e, (g.enqueueLocked limits priority data).2 = .error e) ∨
    ∃ k ≤ g.bulk.length, g.enqueueLocked limits priority data =
        (accept g k priority data, .ok (g.nextId, decide (0 < k))) ∧
      ¬ (evictFirst g k).Full limits data.length := by
  cases enqueueLocked_cases g limits priority data with
  | inl hlarge => exact .inl ⟨hlarge.1,hlarge.2.2⟩
  | inr hfits =>
    obtain ⟨hsize,k,hk,hpolicy,hcases⟩ := hfits
    cases hcases with
    | inl hok => exact .inr ⟨k,hk,hok⟩
    | inr herr =>
      obtain ⟨hstate,he,hfull,hall⟩ := herr
      have hzero : k=0 := by
        by_contra hk0
        have hevict : limits.policy ≠ .rejectNew := fun h => hk0 (hpolicy h)
        have hkall := hall hevict
        apply hv
        refine ⟨?_,hsize,?_,?_⟩
        · cases hp : limits.policy with
          | rejectNew => exact absurd hp hevict
          | evictOldest => rfl
        · intro hnil
          rw [hnil] at hkall
          exact hk0 hkall
        · subst hkall
          have hbytes := hs.bytes
          simp only [Inner.Full,evictFirst,Inner.pendingItems,drop_length,
            take_length,length_nil] at hfull
          omega
      rw [hzero,evictFirst_zero] at hstate
      exact .inl ⟨hstate,he⟩

def Written : Op → Prop
  | .enqueue _ _ r => r = .done
  | .flush r => r = .done
  | .persist r => r = .done

def Harmless (q : Queue) : Op → Prop
  | .enqueue _ data _ => ¬ EvictsInVain q.limits q.inner data
  | .flush _ => True
  | .persist _ => True

structure Kept (codec : Codec) (limits : QueueLimits) (q : Queue) : Prop where
  limits_eq : q.limits=limits
  sound : Sound limits q.inner
  onDisk : OnDisk codec q

variable {q : Queue}

theorem kept_rewriteSpool (hc : codec.Exact) (hspool : q.spool=some spool)
    (hs : Sound q.limits q.inner) : Kept codec q.limits (q.rewriteSpool codec .done) := by
  obtain ⟨n,hn⟩ := rewriteSpool_inner codec .done q
  exact ⟨rewriteSpool_limits codec .done q,by rw [hn]; exact hs.persistErrors n,
    onDisk_rewriteSpool hc hspool hs⟩

theorem kept_openSpool (hc : codec.Exact) (h : Queue.openSpool codec limits .done spool = .ok q) : Kept codec limits q := by
  obtain ⟨items,-,rfl⟩ := openSpool_eq_ok codec h
  exact kept_rewriteSpool (q := ⟨items.foldl (recoverItem limits) Inner.new,limits,some spool⟩)
    hc rfl ((sound_new limits).recover items)

theorem mem_accept {g : Inner} {k : Nat} {priority : Priority} {x : QueuedItem} :
    x∈(accept g k priority data).control++(accept g k priority data).bulk ↔
      x∈g.control++g.bulk.drop k ∨ x=⟨g.nextId,priority,data⟩ := by
  cases priority with
  | control => simp [accept,evictFirst,Inner.push]; tauto
  | bulk => simp [accept,evictFirst,Inner.push]; tauto

/- The accepted item is the only one under its id. -/
theorem find_accepted {g : Inner} (hs : Sound limits g) (priority : Priority) (data : Bytes) :
    (((accept g 0 priority data).control++(accept g 0 priority data).bulk).find?
      fun x => x.id=g.nextId)=some ⟨g.nextId,priority,data⟩ := by
  refine find_id ⟨g.nextId,priority,data⟩ (mem_accept.mpr (.inr rfl)) ?_
  intro x hx hid
  cases mem_accept.mp hx with
  | inl hold => exact absurd hid (Nat.ne_of_lt (hs.ids x hold))
  | inr he => exact he

theorem Kept.enqueue (hc : codec.Exact) (h : Kept codec limits q) (priority : Priority)
    (hv : ¬ EvictsInVain q.limits q.inner data) :
    Kept codec limits (q.tryEnqueue codec .done priority data).1 := by
  obtain ⟨hlimits,hs,file,seals,items,hspool,hfile,hcontrol,hbulk⟩ := h
  subst hlimits
  cases enqueueLocked_refused_or_accepted hs priority hv with
  | inl hrefused =>
    obtain ⟨hstate,e,he⟩ := hrefused
    have henq : q.inner.enqueueLocked q.limits priority data=(q.inner.refuse, .error e) :=
      Prod.ext hstate he
    rw [Queue.tryEnqueue,henq]
    exact ⟨rfl,hs.refuse,file,seals,items,hspool,hfile,hcontrol,hbulk⟩
  | inr haccepted =>
    obtain ⟨k,hk,henq,hfull⟩ := haccepted
    have hsound := hs.accept hk priority data hfull
    rw [Queue.tryEnqueue,henq]
    cases k with
    | zero =>
      obtain ⟨line,henc,happend⟩ := appendSpool_found hc
        (q := { q with inner := accept q.inner 0 priority data }) hspool
        ⟨q.inner.nextId,priority,data⟩ (find_accepted hs priority data)
      simp only [Nat.lt_irrefl,decide_false,Bool.false_eq_true,if_false]
      rw [happend]
      refine ⟨rfl,hsound,_,_,_,rfl,spooled_append hfile henc,?_⟩
      rw [laneOf_append,laneOf_append,hcontrol,hbulk]
      cases priority with
      | control => simp [accept,evictFirst_zero,Inner.push,laneOf]
      | bulk => simp [accept,evictFirst_zero,Inner.push,laneOf]
    | succ k =>
      simp only [Nat.zero_lt_succ,decide_true,if_true]
      exact kept_rewriteSpool
        (q := { q with inner := accept q.inner (k+1) priority data }) hc hspool hsound

theorem Kept.perform (hc : codec.Exact) (h : Kept codec limits q) {op : Op} (hw : Written op)
    (hharmless : Harmless q op) : Kept codec limits (perform codec q op).1 := by
  cases op with
  | enqueue priority data r =>
    cases hw
    exact h.enqueue hc priority hharmless
  | flush r =>
    cases hw
    obtain ⟨hlimits,hs,file,seals,-,hspool,-⟩ := h
    subst hlimits
    exact kept_rewriteSpool (q := { q with inner := q.inner.drainLocked.1 }) hc hspool
      hs.drainLocked
  | persist r =>
    cases hw
    obtain ⟨hlimits,hs,file,seals,-,hspool,-⟩ := h
    subst hlimits
    exact kept_rewriteSpool hc hspool hs

/- In that case memory loses the bulk lane and the file keeps it. -/
theorem Kept.evicts_in_vain (h : Kept codec limits q) (priority : Priority)
    (hv : EvictsInVain q.limits q.inner data) :
    ¬ Restores codec (q.tryEnqueue codec .done priority data).1 := by
  obtain ⟨hlimits,hs,hdisk⟩ := h
  subst hlimits
  obtain ⟨hpolicy,hsize,hbulk,hover⟩ := hv
  have hevict : q.limits.policy ≠ .rejectNew := by simp [hpolicy]
  have hfull : ∀ k ≤ q.inner.bulk.length,
      (evictFirst q.inner k).Full q.limits data.length := by
    intro k hk
    have hbytes := (hs.evictFirst hk).bytes
    rw [Inner.Full,hbytes,Inner.pendingItems]
    simp only [evictFirst]
    omega
  obtain ⟨spool,hspool,q',hopen,-,hrestored⟩ := restores_of_onDisk hdisk hs
  cases enqueueLocked_cases q.inner q.limits priority data with
  | inl hlarge => exact absurd hsize (Nat.not_le.mpr hlarge.2.1)
  | inr hfits =>
    obtain ⟨-,k,hk,-,hcases⟩ := hfits
    cases hcases with
    | inl hok => exact absurd (hfull k hk) hok.2
    | inr herr =>
      obtain ⟨hstate,⟨e,he⟩,-,hall⟩ := herr
      have henq : q.inner.enqueueLocked q.limits priority data =
          ((evictFirst q.inner k).refuse, .error e) := Prod.ext hstate he
      rw [Queue.tryEnqueue,henq]
      intro hrestores
      obtain ⟨spool',hspool',q'',hopen',-,hempty⟩ := hrestores
      obtain rfl : spool=spool' := Option.some.inj (hspool.symm.trans hspool')
      obtain rfl : q'=q'' := Except.ok.inj (hopen.symm.trans hopen')
      apply hbulk
      rw [← hrestored,hempty,hall hevict]
      exact drop_length

/- A call with no failing write that does not evict in vain. -/
def Step (codec : Codec) : Queue → Op → Queue → Prop :=
  Guarded (fun q op => Written op ∧ Harmless q op) fun q op => (perform codec q op).1

theorem kept_run (hc : codec.Exact) {q₀ : Queue}
    (hopen : Queue.openSpool codec limits .done spool = .ok q₀) (ops : List Op)
    (hrun : Run (Step codec) q₀ ops q) : Kept codec limits q := by
  refine hrun.invariant (kept_openSpool hc hopen) ?_
  intro q op q' hq hstep
  obtain ⟨⟨hw,hharmless⟩,rfl⟩ := hstep
  exact hq.perform hc hw hharmless

/-- From an opened spool, as long as no call evicts in vain, opening the file again after any
number of calls restores the lanes as they are in memory. -/
theorem spool_restores_lanes (codec : Codec) (hc : codec.Exact) (limits : QueueLimits)
    (spool : Spool) (q₀ : Queue) (hopen : Queue.openSpool codec limits .done spool = .ok q₀)
    (ops : List Op) (q : Queue) (hrun : Run (Step codec) q₀ ops q) : Restores codec q := by
  have hkept := kept_run hc hopen ops hrun
  apply restores_of_onDisk hkept.onDisk
  rw [hkept.limits_eq]
  exact hkept.sound

/- The queue that open makes where there is no file yet. -/
def freshQueue (limits : QueueLimits) : Queue :=
  Queue.rewriteSpool SpoolJson.jsonCodec .done ⟨Inner.new,limits,some ⟨none,0⟩⟩

theorem openSpool_fresh (limits : QueueLimits) :
    Queue.openSpool SpoolJson.jsonCodec limits .done ⟨none,0⟩ = .ok (freshQueue limits) := rfl

/- Room for two items: the third call evicts the first bulk item and is accepted. -/
theorem spool_restores_lanes_eviction :
    Restores SpoolJson.jsonCodec ([Op.enqueue .bulk [1] .done,.enqueue .control [2] .done,
      .enqueue .bulk [3] .done].foldl (fun q op => (perform SpoolJson.jsonCodec q op).1)
        (freshQueue ⟨2,10,.evictOldest⟩)) := by
  apply spool_restores_lanes SpoolJson.jsonCodec SpoolJson.jsonCodec_exact _ _ _
    (openSpool_fresh ⟨2,10,.evictOldest⟩)
    [.enqueue .bulk [1] .done,.enqueue .control [2] .done,.enqueue .bulk [3] .done]
  refine .cons ⟨⟨rfl,?_⟩,rfl⟩ (.cons ⟨⟨rfl,?_⟩,rfl⟩ (.cons ⟨⟨rfl,?_⟩,rfl⟩ (.refl _)))
  · exact of_decide_eq_false (by decide +kernel)
  · exact of_decide_eq_false (by decide +kernel)
  · exact of_decide_eq_false (by decide +kernel)

/- Ten bytes of room: eight of them control, one bulk. -/
def tightQueue : Queue :=
  [Op.enqueue .control (List.replicate 8 0) .done,.enqueue .bulk [1] .done].foldl
    (fun q op => (perform SpoolJson.jsonCodec q op).1) (freshQueue ⟨10,10,.evictOldest⟩)

theorem tightQueue_kept : Kept SpoolJson.jsonCodec ⟨10,10,.evictOldest⟩ tightQueue := by
  apply kept_run SpoolJson.jsonCodec_exact (openSpool_fresh _)
    [.enqueue .control (List.replicate 8 0) .done,.enqueue .bulk [1] .done]
  refine .cons ⟨⟨rfl,?_⟩,rfl⟩ (.cons ⟨⟨rfl,?_⟩,rfl⟩ (.refl _))
  · exact of_decide_eq_false (by decide +kernel)
  · exact of_decide_eq_false (by decide +kernel)

/- Five more bytes evict the bulk item and are refused, and the evicted item is back after
   the next open. -/
theorem spool_keeps_evicted_item :
    ¬ ∀ codec : Codec, codec.Exact → ∀ limits spool q₀,
      Queue.openSpool codec limits .done spool = .ok q₀ →
      ∀ ops : List Op, (∀ op∈ops, Written op) →
        Restores codec (ops.foldl (fun q op => (perform codec q op).1) q₀) := by
  intro hall
  refine tightQueue_kept.evicts_in_vain .control (of_decide_eq_true (by decide +kernel))
    (hall _ SpoolJson.jsonCodec_exact _ _ _ (openSpool_fresh ⟨10,10,.evictOldest⟩)
      [.enqueue .control (List.replicate 8 0) .done,.enqueue .bulk [1] .done,
        .enqueue .control (List.replicate 5 0) .done] ?_)
  simp [Written]
end

end AetherX.SpoolAgreement
