import AetherX.Machine
import AetherX.SpoolJson

/-! What the queue holds after any calls: its counters add up, its limits are kept,
and each lane is what was accepted since the last flush. -/
namespace AetherX.QueueAccounting
open StoreAndForward Machine List

def bytesOf (items : List QueuedItem) : Nat := (items.map fun item => item.data.length).sum

@[simp] theorem bytesOf_nil : bytesOf []=0 := rfl

@[simp] theorem bytesOf_append (xs ys : List QueuedItem) :
    bytesOf (xs++ys)=bytesOf xs+bytesOf ys := by
  simp [bytesOf]

@[simp] theorem bytesOf_cons (x : QueuedItem) (xs : List QueuedItem) :
    bytesOf (x::xs)=x.data.length+bytesOf xs := by
  simp [bytesOf]

theorem bytesOf_take_add_drop (xs : List QueuedItem) (k : Nat) :
    bytesOf (xs.take k)+bytesOf (xs.drop k)=bytesOf xs := by
  rw [← bytesOf_append,take_append_drop]

def evictFirst (g : Inner) (k : Nat) : Inner :=
  { g with
    bulk := g.bulk.drop k
    pendingBytes := g.pendingBytes-bytesOf (g.bulk.take k)
    totalEvicted := g.totalEvicted+k }

variable (g : Inner)

theorem evictFirst_zero : evictFirst g 0=g := by simp [evictFirst]

theorem evictFirst_evict {g : Inner} {v : QueuedItem} {rest : List QueuedItem}
    (h : g.bulk=v::rest) (k : Nat) : evictFirst (g.evict v rest) k=evictFirst g (k+1) := by
  simp only [evictFirst,Inner.evict,h,drop_succ_cons,take_succ_cons,bytesOf_cons]
  congr 1
  · omega
  · omega

/-- Everything the loop can do: evict some oldest bulk items until the newcomer fits, or give
up, at once under RejectNew and with an empty bulk lane under EvictOldest. -/
theorem makeRoom_cases (limits : QueueLimits) (size : Nat) (g : Inner) (flag : Bool) :
    ∃ k ≤ g.bulk.length, (limits.policy = .rejectNew → k=0) ∧
      ((makeRoom limits size g flag=(evictFirst g k, .ok (flag || decide (0 < k))) ∧
          ¬ (evictFirst g k).Full limits size) ∨
        ((makeRoom limits size g flag).1=(evictFirst g k).refuse ∧
          (∃ e, (makeRoom limits size g flag).2 = .error e) ∧ (evictFirst g k).Full limits size ∧
          (limits.policy ≠ .rejectNew → k=g.bulk.length))) := by
  fun_induction makeRoom limits size g flag with
  | case1 g flag hfull hpolicy =>
    exact ⟨0,Nat.zero_le _,fun _ => rfl,.inr ⟨by rw [evictFirst_zero],⟨_,rfl⟩,
      by rwa [evictFirst_zero],fun h => absurd hpolicy h⟩⟩
  | case2 g flag hfull hpolicy v rest hbulk ih =>
    obtain ⟨k,hk,-,hcases⟩ := ih
    refine ⟨k+1,?_,fun h => absurd h hpolicy,?_⟩
    · rw [hbulk]
      exact Nat.succ_le_succ hk
    · rw [evictFirst_evict hbulk] at hcases
      cases hcases with
      | inl hok => exact .inl ⟨by simpa using hok.1,hok.2⟩
      | inr herr =>
        refine .inr ⟨herr.1,herr.2.1,herr.2.2.1,fun h => ?_⟩
        rw [hbulk,length_cons,herr.2.2.2 h]
        rfl
  | case3 g flag hfull hpolicy hbulk =>
    refine ⟨0,Nat.zero_le _,fun _ => rfl,.inr ⟨by rw [evictFirst_zero],⟨_,rfl⟩,
      by rwa [evictFirst_zero],fun _ => by rw [hbulk]; rfl⟩⟩
  | case4 g flag hfull =>
    exact ⟨0,Nat.zero_le _,fun _ => rfl,.inl ⟨by simp [evictFirst_zero],
      by rwa [evictFirst_zero]⟩⟩

def accept (g : Inner) (k : Nat) (priority : Priority) (data : Bytes) : Inner :=
  ({ evictFirst g k with
      nextId := g.nextId+1
      pendingBytes := (evictFirst g k).pendingBytes+data.length
      totalEnqueued := g.totalEnqueued+1 } : Inner).push ⟨g.nextId,priority,data⟩

/-- Everything a call of try_enqueue can do to memory. -/
theorem enqueueLocked_cases (limits : QueueLimits) (priority : Priority) (data : Bytes) :
    ((g.enqueueLocked limits priority data).1=g.refuse ∧ limits.maxBytes < data.length ∧
      ∃ e, (g.enqueueLocked limits priority data).2 = .error e) ∨
    (data.length ≤ limits.maxBytes ∧
      ∃ k ≤ g.bulk.length, (limits.policy = .rejectNew → k=0) ∧
        ((g.enqueueLocked limits priority data =
              (accept g k priority data, .ok (g.nextId, decide (0 < k))) ∧
            ¬ (evictFirst g k).Full limits data.length) ∨
          ((g.enqueueLocked limits priority data).1=(evictFirst g k).refuse ∧
            (∃ e, (g.enqueueLocked limits priority data).2 = .error e) ∧
            (evictFirst g k).Full limits data.length ∧
            (limits.policy ≠ .rejectNew → k=g.bulk.length)))) := by
  by_cases hsize : data.length > limits.maxBytes
  · have hlarge : g.enqueueLocked limits priority data =
        (g.refuse, .error (.itemTooLarge data.length limits.maxBytes)) := if_pos hsize
    exact .inl ⟨by rw [hlarge],hsize,_,by rw [hlarge]⟩
  · refine .inr ⟨Nat.le_of_not_lt hsize,?_⟩
    obtain ⟨k,hk,hpolicy,hcases⟩ := makeRoom_cases limits data.length g false
    refine ⟨k,hk,hpolicy,?_⟩
    cases hcases with
    | inl hok =>
      refine .inl ⟨?_,hok.2⟩
      rw [Inner.enqueueLocked,if_neg hsize,hok.1,Bool.false_or]
      rfl
    | inr herr =>
      obtain ⟨hstate,⟨e,he⟩,hfull,hall⟩ := herr
      have hroom : makeRoom limits data.length g false=((evictFirst g k).refuse, .error e) :=
        Prod.ext hstate he
      refine .inr ⟨?_,⟨e,?_⟩,hfull,hall⟩
      · rw [Inner.enqueueLocked,if_neg hsize,hroom]
      · rw [Inner.enqueueLocked,if_neg hsize,hroom]

theorem enqueueLocked_fits (limits : QueueLimits) (priority : Priority) (data : Bytes)
    (hsize : data.length ≤ limits.maxBytes) (hroom : ¬ g.Full limits data.length) :
    g.enqueueLocked limits priority data =
      (accept g 0 priority data, .ok (g.nextId, false)) := by
  rw [Inner.enqueueLocked,if_neg (Nat.not_lt.mpr hsize),makeRoom,if_neg hroom,accept,
    evictFirst_zero]

@[simp] theorem push_pendingItems (item : QueuedItem) :
    (g.push item).pendingItems=g.pendingItems+1 := by
  cases hp : item.priority <;> simp [Inner.push,Inner.pendingItems,hp] <;> omega

@[simp] theorem push_pendingBytes (item : QueuedItem) :
    (g.push item).pendingBytes=g.pendingBytes := by
  cases hp : item.priority <;> simp [Inner.push,hp]

theorem push_bytesOf (item : QueuedItem) :
    bytesOf (g.push item).control+bytesOf (g.push item).bulk =
      bytesOf g.control+bytesOf g.bulk+item.data.length := by
  cases hp : item.priority <;> simp [Inner.push,hp,bytesOf_nil] <;> omega

theorem push_counters (item : QueuedItem) :
    (g.push item).totalEnqueued=g.totalEnqueued ∧
      (g.push item).recoveredItems=g.recoveredItems ∧
      (g.push item).totalFlushed=g.totalFlushed ∧
      (g.push item).totalEvicted=g.totalEvicted ∧ (g.push item).nextId=g.nextId := by
  cases hp : item.priority <;> simp [Inner.push,hp]

theorem mem_push_control {g : Inner} {item x : QueuedItem} (hx : x∈(g.push item).control) :
    x∈g.control ∨ x=item ∧ item.priority = .control := by
  cases hp : item.priority <;> simp_all [Inner.push]

theorem mem_push_bulk {g : Inner} {item x : QueuedItem} (hx : x∈(g.push item).bulk) :
    x∈g.bulk ∨ x=item ∧ item.priority = .bulk := by
  cases hp : item.priority <;> simp_all [Inner.push]

/-- What every reachable memory state satisfies. -/
structure Sound (limits : QueueLimits) (g : Inner) : Prop where
  bytes : g.pendingBytes=bytesOf g.control+bytesOf g.bulk
  items_le : g.pendingItems ≤ limits.maxItems
  bytes_le : g.pendingBytes ≤ limits.maxBytes
  balance : g.totalEnqueued+g.recoveredItems =
    g.totalFlushed+g.totalEvicted+g.pendingItems
  control : ∀ item∈g.control, item.priority = .control
  bulk : ∀ item∈g.bulk, item.priority = .bulk
  ids : ∀ item∈g.control++g.bulk, item.id < g.nextId

section
variable {limits : QueueLimits} {g : Inner}

theorem sound_new (limits : QueueLimits) : Sound limits Inner.new :=
  ⟨rfl,Nat.zero_le _,Nat.zero_le _,rfl,by simp [Inner.new],by simp [Inner.new],
    by simp [Inner.new]⟩

theorem Sound.refuse (h : Sound limits g) : Sound limits g.refuse :=
  ⟨h.bytes,h.items_le,h.bytes_le,h.balance,h.control,h.bulk,h.ids⟩

theorem Sound.persistErrors (h : Sound limits g) (n : Nat) :
    Sound limits { g with persistErrors := n } :=
  ⟨h.bytes,h.items_le,h.bytes_le,h.balance,h.control,h.bulk,h.ids⟩

theorem Sound.evictFirst (h : Sound limits g) {k : Nat} (hk : k ≤ g.bulk.length) :
    Sound limits (evictFirst g k) := by
  have hsplit := bytesOf_take_add_drop g.bulk k
  have hbytes := h.bytes
  have hbalance := h.balance
  have hitems := h.items_le
  have hle := h.bytes_le
  simp only [Inner.pendingItems] at hbalance hitems
  constructor
  · simp only [QueueAccounting.evictFirst]
    omega
  · simp only [QueueAccounting.evictFirst,Inner.pendingItems,length_drop]
    omega
  · simp only [QueueAccounting.evictFirst]
    omega
  · simp only [QueueAccounting.evictFirst,Inner.pendingItems,length_drop]
    omega
  · exact h.control
  · intro item hi
    exact h.bulk item (mem_of_mem_drop hi)
  · intro item hi
    apply h.ids item
    cases mem_append.mp hi with
    | inl hc => exact mem_append_left _ hc
    | inr hb => exact mem_append_right _ (mem_of_mem_drop hb)

/- A new item under a fresh id, whichever counter it is booked under. -/
theorem Sound.push (h : Sound limits g) (item : QueuedItem) {n e r : Nat}
    (hid : item.id < n) (hn : g.nextId ≤ n)
    (hcount : e+r=g.totalEnqueued+g.recoveredItems+1)
    (hitems : g.pendingItems+1 ≤ limits.maxItems)
    (hbytes : g.pendingBytes+item.data.length ≤ limits.maxBytes) :
    Sound limits (({ g with
      nextId := n
      pendingBytes := g.pendingBytes+item.data.length
      totalEnqueued := e
      recoveredItems := r } : Inner).push item) := by
  have hsum := h.bytes
  have hbalance := h.balance
  have hids : ∀ x∈g.control++g.bulk, x.id < n :=
    fun x hx => Nat.lt_of_lt_of_le (h.ids x hx) hn
  constructor
  · rw [push_pendingBytes,push_bytesOf]
    exact congrArg (· + item.data.length) hsum
  · rw [push_pendingItems]
    exact hitems
  · rw [push_pendingBytes]
    exact hbytes
  · obtain ⟨henqueued,hrecovered,hflushed,hevicted,-⟩ := push_counters _ item
    rw [henqueued,hrecovered,hflushed,hevicted,push_pendingItems]
    simp only [Inner.pendingItems] at hbalance ⊢
    omega
  · intro x hx
    cases mem_push_control hx with
    | inl hc => exact h.control x hc
    | inr he => rw [he.1,he.2]
  · intro x hx
    cases mem_push_bulk hx with
    | inl hb => exact h.bulk x hb
    | inr he => rw [he.1,he.2]
  · intro x hx
    rw [(push_counters _ item).2.2.2.2]
    cases mem_append.mp hx with
    | inl hc =>
      cases mem_push_control hc with
      | inl hold => exact hids x (mem_append_left _ hold)
      | inr he => exact he.1 ▸ hid
    | inr hb =>
      cases mem_push_bulk hb with
      | inl hold => exact hids x (mem_append_right _ hold)
      | inr he => exact he.1 ▸ hid

theorem Sound.accept (h : Sound limits g) {k : Nat} (hk : k ≤ g.bulk.length) (priority : Priority)
    (data : Bytes) (hfull : ¬ (QueueAccounting.evictFirst g k).Full limits data.length) :
    Sound limits (accept g k priority data) := by
  rw [Inner.Full,not_or,Nat.not_lt,Nat.not_lt] at hfull
  refine (h.evictFirst hk).push ⟨g.nextId,priority,data⟩ ?_ (Nat.le_succ _) ?_ hfull.1 hfull.2
  · exact Nat.lt_succ_self _
  · exact Nat.add_right_comm _ _ _

theorem Sound.enqueueLocked (h : Sound limits g) (priority : Priority) (data : Bytes) :
    Sound limits (g.enqueueLocked limits priority data).1 := by
  cases enqueueLocked_cases g limits priority data with
  | inl hlarge =>
    rw [hlarge.1]
    exact h.refuse
  | inr hfits =>
    obtain ⟨-,k,hk,-,hcases⟩ := hfits
    cases hcases with
    | inl hok =>
      rw [hok.1]
      exact h.accept hk priority data hok.2
    | inr herr =>
      rw [herr.1]
      exact (h.evictFirst hk).refuse

theorem Sound.drainLocked (h : Sound limits g) : Sound limits g.drainLocked.1 := by
  have hbalance := h.balance
  refine ⟨rfl,Nat.zero_le _,Nat.zero_le _,?_,by simp [Inner.drainLocked],by simp [Inner.drainLocked],
    by simp [Inner.drainLocked]⟩
  simp only [Inner.drainLocked,Inner.pendingItems,length_append,length_nil] at hbalance ⊢
  omega

theorem Sound.recoverItem (h : Sound limits g) (item : QueuedItem) :
    Sound limits (recoverItem limits g item) := by
  rw [StoreAndForward.recoverItem]
  split_ifs with hfull
  · exact h.refuse
  · rw [not_or,Nat.not_le,Nat.not_lt] at hfull
    exact h.push item (Nat.lt_of_lt_of_le (Nat.lt_succ_self _) (Nat.le_max_right _ _))
      (Nat.le_max_left _ _) (Nat.add_assoc _ _ _).symm hfull.1 hfull.2

theorem Sound.recover (h : Sound limits g) (items : List QueuedItem) :
    Sound limits (items.foldl (StoreAndForward.recoverItem limits) g) := by
  induction items generalizing g with
  | nil => exact h
  | cons item items ih => exact ih (h.recoverItem item)
end

section
variable (codec : Codec)

variable (r : WriteResult)

/- File writes leave memory alone but for the error counter. -/
theorem appendSpool_inner (id : Nat) (q : Queue) :
    ∃ n, (q.appendSpool codec r id).inner={ q.inner with persistErrors := n } := by
  rw [Queue.appendSpool]
  split
  · exact ⟨_,rfl⟩
  · dsimp only
    split
    · exact ⟨_,rfl⟩
    · split <;> exact ⟨_,rfl⟩

theorem rewriteSpool_inner (q : Queue) :
    ∃ n, (q.rewriteSpool codec r).inner={ q.inner with persistErrors := n } := by
  rw [Queue.rewriteSpool]
  split
  · exact ⟨_,rfl⟩
  · dsimp only
    split <;> exact ⟨_,rfl⟩

theorem appendSpool_limits (id : Nat) (q : Queue) :
    (q.appendSpool codec r id).limits=q.limits := by
  rw [Queue.appendSpool]
  split
  · rfl
  · dsimp only
    split
    · rfl
    · split <;> rfl

theorem rewriteSpool_limits (q : Queue) : (q.rewriteSpool codec r).limits=q.limits := by
  rw [Queue.rewriteSpool]
  split
  · rfl
  · dsimp only
    split <;> rfl

theorem tryEnqueue_inner (priority : Priority) (data : Bytes) (q : Queue) :
    (∃ n, (q.tryEnqueue codec r priority data).1.inner =
      { (q.inner.enqueueLocked q.limits priority data).1 with persistErrors := n }) ∧
    (q.tryEnqueue codec r priority data).1.limits=q.limits ∧
    (q.tryEnqueue codec r priority data).2 =
      (q.inner.enqueueLocked q.limits priority data).2.map Prod.fst := by
  rw [Queue.tryEnqueue]
  split
  next g e heq =>
    rw [heq]
    exact ⟨⟨_,rfl⟩,rfl,rfl⟩
  next g id compactNeeded heq =>
    rw [heq]
    cases compactNeeded with
    | false => exact ⟨appendSpool_inner codec r id _,appendSpool_limits codec r id _,rfl⟩
    | true => exact ⟨rewriteSpool_inner codec r _,rewriteSpool_limits codec r _,rfl⟩
end

/-- A call on the queue, with how its file write ends. -/
inductive Op where
  | enqueue (priority : Priority) (data : Bytes) (r : WriteResult)
  | flush (r : WriteResult)
  | persist (r : WriteResult)

inductive Outcome where
  | accepted (item : QueuedItem)
  | rejected (e : EnqueueError)
  | flushed (items : List QueuedItem)
  | persisted

section
variable (codec : Codec)

def Outcome.ofEnqueue (priority : Priority) (data : Bytes) : Except EnqueueError Nat → Outcome
  | .ok id => .accepted ⟨id,priority,data⟩
  | .error e => .rejected e

def perform (q : Queue) : Op → Queue × Outcome
  | .enqueue priority data r =>
    let (q, result) := q.tryEnqueue codec r priority data
    (q, .ofEnqueue priority data result)
  | .flush r =>
    let (q, out) := q.flush codec r
    (q, .flushed out)
  | .persist r => (q.persist codec r, .persisted)

structure Session where
  queue : Queue
  outcomes : List Outcome

def Session.next (s : Session) (op : Op) : Session :=
  let (q, outcome) := perform codec s.queue op
  ⟨q,s.outcomes++[outcome]⟩

def hold (priority : Priority) (lane : List QueuedItem) : Outcome → List QueuedItem
  | .accepted item => if item.priority=priority then lane++[item] else lane
  | .rejected _ => lane
  | .flushed _ => []
  | .persisted => lane

/-- The items of a lane accepted since the last flush, in the order of their calls, after
what the lane started with if there was no flush. -/
def held (priority : Priority) (start : List QueuedItem) (outcomes : List Outcome) :
    List QueuedItem :=
  outcomes.foldl (hold priority) start

theorem held_snoc (priority : Priority) (start : List QueuedItem) (outcomes : List Outcome)
    (outcome : Outcome) : held priority start (outcomes++[outcome]) =
      hold priority (held priority start outcomes) outcome := by
  rw [held,held,foldl_append]
  rfl

/- A queue as its constructors return it. -/
inductive Created (limits : QueueLimits) : Queue → Prop
  | withLimits : Created limits (Queue.withLimits limits)
  | opened {r : WriteResult} {spool : Spool} {q : Queue} :
      Queue.openSpool codec limits r spool = .ok q → Created limits q

variable {limits : QueueLimits}

theorem openSpool_eq_ok {r : WriteResult} {spool : Spool} {q : Queue}
    (h : Queue.openSpool codec limits r spool = .ok q) :
    ∃ items, codec.readSpool spool.file = .ok items ∧ q=Queue.rewriteSpool codec r
      ⟨items.foldl (recoverItem limits) Inner.new,limits,some spool⟩ := by
  rw [Queue.openSpool] at h
  cases hread : codec.readSpool spool.file with
  | error e =>
    rw [hread] at h
    cases h
  | ok items =>
    rw [hread] at h
    exact ⟨items,rfl,(Except.ok.inj h).symm⟩

theorem Created.sound {q : Queue} (h : Created codec limits q) :
    Sound limits q.inner ∧ q.limits=limits := by
  cases h with
  | withLimits => exact ⟨sound_new limits,rfl⟩
  | @opened r spool q ho =>
    obtain ⟨items,-,rfl⟩ := openSpool_eq_ok codec ho
    obtain ⟨n,hn⟩ := rewriteSpool_inner codec r
      ⟨items.foldl (recoverItem limits) Inner.new,limits,some spool⟩
    rw [hn,rewriteSpool_limits]
    exact ⟨((sound_new limits).recover items).persistErrors n,rfl⟩

/- The lanes against the history, next to the counters. -/
structure Accounted (limits : QueueLimits) (start : Inner) (s : Session) : Prop where
  limits_eq : s.queue.limits=limits
  sound : Sound limits s.queue.inner
  control : s.queue.inner.control=held .control start.control s.outcomes
  bulk : s.queue.inner.bulk <:+ held .bulk start.bulk s.outcomes

theorem push_control (g : Inner) (item : QueuedItem) :
    (g.push item).control=hold .control g.control (.accepted item) := by
  cases hp : item.priority <;> simp [Inner.push,hold,hp]

theorem push_bulk (g : Inner) (item : QueuedItem) :
    (g.push item).bulk=hold .bulk g.bulk (.accepted item) := by
  cases hp : item.priority <;> simp [Inner.push,hold,hp]

theorem hold_accepted_suffix {xs ys : List QueuedItem} (h : xs <:+ ys) (item : QueuedItem) :
    hold .bulk xs (.accepted item) <:+ hold .bulk ys (.accepted item) := by
  rw [hold,hold]
  split_ifs
  · exact suffix_append_self_iff.mpr h
  · exact h

/- One call of try_enqueue, seen from the lanes. -/
theorem enqueueLocked_lanes (g : Inner) (limits : QueueLimits) (priority : Priority) (data : Bytes)
    {lane : List QueuedItem} (hbulk : g.bulk <:+ lane) :
    let outcome := Outcome.ofEnqueue priority data ((g.enqueueLocked limits priority data).2.map Prod.fst)
    (g.enqueueLocked limits priority data).1.control=hold .control g.control outcome ∧
      (g.enqueueLocked limits priority data).1.bulk <:+ hold .bulk lane outcome := by
  cases enqueueLocked_cases g limits priority data with
  | inl hlarge =>
    obtain ⟨hstate,-,e,he⟩ := hlarge
    rw [hstate,he]
    exact ⟨rfl,hbulk⟩
  | inr hfits =>
    obtain ⟨-,k,-,-,hcases⟩ := hfits
    have hdrop : g.bulk.drop k <:+ lane := (drop_suffix k g.bulk).trans hbulk
    cases hcases with
    | inl hok =>
      rw [hok.1]
      refine ⟨push_control _ _,?_⟩
      rw [accept,push_bulk]
      exact hold_accepted_suffix hdrop _
    | inr herr =>
      obtain ⟨hstate,⟨e,he⟩,-⟩ := herr
      rw [hstate,he]
      exact ⟨rfl,hdrop⟩

theorem Accounted.rewriteSpool {start : Inner} {s : Session} (h : Accounted limits start s)
    (r : WriteResult) : Accounted limits start ⟨s.queue.rewriteSpool codec r,s.outcomes⟩ := by
  obtain ⟨n,hinner⟩ := rewriteSpool_inner codec r s.queue
  refine ⟨(rewriteSpool_limits codec r _).trans h.limits_eq,?_,?_,?_⟩
  · rw [hinner]
    exact h.sound.persistErrors n
  · rw [hinner]
    exact h.control
  · rw [hinner]
    exact h.bulk

theorem Accounted.next {start : Inner} {s : Session} (h : Accounted limits start s) (op : Op) : Accounted limits start (s.next codec op) := by
  cases op with
  | enqueue priority data r =>
    obtain ⟨⟨n,hinner⟩,hlimits,hresult⟩ := tryEnqueue_inner codec r priority data s.queue
    obtain ⟨hcontrol,hbulk⟩ := enqueueLocked_lanes s.queue.inner s.queue.limits priority data h.bulk
    have hsound := h.sound.enqueueLocked priority data
    rw [← h.limits_eq] at hsound
    refine ⟨hlimits.trans h.limits_eq,?_,?_,?_⟩
    · simp only [Session.next,perform]
      rw [hinner,← h.limits_eq]
      exact hsound.persistErrors n
    · simp only [Session.next,perform]
      rw [held_snoc,← h.control,hinner,hresult]
      exact hcontrol
    · simp only [Session.next,perform]
      rw [held_snoc,hinner,hresult]
      exact hbulk
  | flush r =>
    refine Accounted.rewriteSpool codec (s := ⟨{ s.queue with inner := s.queue.inner.drainLocked.1 },
      s.outcomes++[.flushed s.queue.inner.drainLocked.2]⟩) ⟨h.limits_eq,h.sound.drainLocked,?_,?_⟩ r
    · rw [held_snoc]
      rfl
    · exact nil_suffix
  | persist r =>
    refine Accounted.rewriteSpool codec (s := ⟨s.queue,s.outcomes++[.persisted]⟩)
      ⟨h.limits_eq,h.sound,?_,?_⟩ r
    · rw [held_snoc]
      exact h.control
    · rw [held_snoc]
      exact h.bulk

theorem Created.accounted {q : Queue} (h : Created codec limits q) (ops : List Op) : Accounted limits q.inner (ops.foldl (Session.next codec) ⟨q,[]⟩) := by
  obtain ⟨hsound,hlimits⟩ := h.sound
  exact (run_foldl (Session.next codec) ops ⟨q,[]⟩).invariant
    ⟨hlimits,hsound,rfl,suffix_refl _⟩ (fun s op t hs ht => ht ▸ hs.next codec op)

/-- After any calls on a queue from its constructors, with any file writes failing: the byte
and item counts are right and within the limits, every item is accounted for, the control lane
is everything accepted for it since the last flush, the bulk lane what is left of its own when
the oldest are evicted, and a flush hands out the one after the other. -/
theorem queue_accounting (limits : QueueLimits) (q : Queue) (h : Created codec limits q)
    (ops : List Op) :
    let s := ops.foldl (Session.next codec) ⟨q,[]⟩
    let g := s.queue.inner
    g.pendingBytes=bytesOf g.control+bytesOf g.bulk ∧
    g.pendingItems ≤ limits.maxItems ∧ g.pendingBytes ≤ limits.maxBytes ∧
    g.totalEnqueued+g.recoveredItems=g.totalFlushed+g.totalEvicted+g.pendingItems ∧
    g.control=held .control q.inner.control s.outcomes ∧
    g.bulk <:+ held .bulk q.inner.bulk s.outcomes ∧
    ∀ r, (s.queue.flush codec r).2=g.control++g.bulk := by
  have hs := h.accounted codec ops
  exact ⟨hs.sound.bytes,hs.sound.items_le,hs.sound.bytes_le,hs.sound.balance,hs.control,
    hs.bulk,fun _ => rfl⟩

/- Room for two items: the third call evicts the first bulk item, not the control item. -/
theorem queue_accounting_eviction :
    let limits : QueueLimits := ⟨2,10,.evictOldest⟩
    let s := [Op.enqueue .bulk [1] .done,.enqueue .control [2] .done,
      .enqueue .bulk [3] .done].foldl (Session.next SpoolJson.jsonCodec)
        ⟨Queue.withLimits limits,[]⟩
    s.queue.inner.totalEvicted=1 ∧ held .control [] s.outcomes=[⟨1,.control,[2]⟩] ∧
      s.queue.inner.control=held .control [] s.outcomes := by
  refine ⟨by decide +kernel,by decide +kernel,?_⟩
  exact (queue_accounting SpoolJson.jsonCodec _ _ .withLimits _).2.2.2.2.1
end

section
variable {g : Inner} {limits : QueueLimits} {size : Nat}

/- Nothing is changed but the count of the rejected items. -/
def OnlyRejected (g g' : Inner) : Prop := g'={ g with totalRejected := g'.totalRejected }

/- The newcomer could be stored alone, but not beside the control items, and there are bulk
   items to be evicted before that is found out. -/
def EvictsInVain (g : Inner) (limits : QueueLimits) (size : Nat) : Prop :=
  size ≤ limits.maxBytes ∧ limits.policy = .evictOldest ∧ g.bulk≠[] ∧
    (limits.maxItems < g.control.length+1 ∨
      limits.maxBytes < g.pendingBytes-bytesOf g.bulk+size)

instance : Decidable (EvictsInVain g limits size) :=
  inferInstanceAs (Decidable (_ ∧ _ ∧ _ ∧ (_ ∨ _)))

theorem full_evictFirst_all : (evictFirst g g.bulk.length).Full limits size ↔
    limits.maxItems < g.control.length+1 ∨
      limits.maxBytes < g.pendingBytes-bytesOf g.bulk+size := by
  simp [Inner.Full,Inner.pendingItems,evictFirst]

/-- A queue that is full after more evictions was full after fewer. -/
theorem full_of_full_evictFirst {k n : Nat} (hkn : k ≤ n)
    (hfull : (evictFirst g n).Full limits size) : (evictFirst g k).Full limits size := by
  have hbytes : bytesOf (g.bulk.take k) ≤ bytesOf (g.bulk.take n) := by
    rw [← bytesOf_take_add_drop (g.bulk.take n) k,take_take,Nat.min_eq_left hkn]
    exact Nat.le_add_right _ _
  simp only [Inner.Full,Inner.pendingItems,evictFirst,length_drop] at hfull ⊢
  omega

variable {data : Bytes}

/-- The rejected newcomer has cost the whole bulk lane. -/
theorem enqueueLocked_in_vain (priority : Priority) (h : EvictsInVain g limits data.length) :
    (g.enqueueLocked limits priority data).1=(evictFirst g g.bulk.length).refuse ∧
      ∃ e, (g.enqueueLocked limits priority data).2 = .error e := by
  obtain ⟨hsize,hpolicy,-,hfull⟩ := h
  rw [← full_evictFirst_all] at hfull
  cases enqueueLocked_cases g limits priority data with
  | inl hlarge => exact absurd hlarge.2.1 (Nat.not_lt.mpr hsize)
  | inr hcases =>
    obtain ⟨-,k,hk,-,hok | herr⟩ := hcases
    · exact absurd (full_of_full_evictFirst hk hfull) hok.2
    · have hall : k=g.bulk.length := herr.2.2.2 (by rw [hpolicy]; decide)
      rw [← hall]
      exact ⟨herr.1,herr.2.1⟩

theorem onlyRejected_refuse : OnlyRejected g g.refuse := rfl

theorem enqueueLocked_error {priority : Priority} {e : EnqueueError}
    (h : ¬ EvictsInVain g limits data.length)
    (he : (g.enqueueLocked limits priority data).2 = .error e) :
    OnlyRejected g (g.enqueueLocked limits priority data).1 := by
  cases enqueueLocked_cases g limits priority data with
  | inl hlarge =>
    rw [hlarge.1]
    exact onlyRejected_refuse
  | inr hcases =>
    obtain ⟨hsize,k,hk,hreject,hok | herr⟩ := hcases
    · rw [hok.1] at he
      cases he
    · obtain ⟨hstate,-,hfull,hall⟩ := herr
      have hnone : k=0 := by
        by_cases hpolicy : limits.policy = .rejectNew
        · exact hreject hpolicy
        -- all of the bulk lane was evicted, so there was nothing in it
        · have hlength := hall hpolicy
          rw [hlength,full_evictFirst_all] at hfull
          have hevict : limits.policy = .evictOldest := by
            cases hp : limits.policy with
            | rejectNew => exact absurd hp hpolicy
            | evictOldest => rfl
          have hempty : g.bulk=[] := not_not.mp fun hne => h ⟨hsize,hevict,hne,hfull⟩
          rw [hlength,hempty,length_nil]
      rw [hstate,hnone,evictFirst_zero]
      exact onlyRejected_refuse

theorem tryEnqueue_error (codec : Codec) {r : WriteResult} {priority : Priority} {q : Queue}
    {e : EnqueueError} (he : (q.inner.enqueueLocked q.limits priority data).2 = .error e) :
    q.tryEnqueue codec r priority data =
      ({ q with inner := (q.inner.enqueueLocked q.limits priority data).1 }, .error e) := by
  rw [Queue.tryEnqueue]
  split
  next g e' heq =>
    rw [heq] at he ⊢
    rw [Except.error.inj he]
  next g id compactNeeded heq =>
    rw [heq] at he
    cases he

theorem tryEnqueue_in_vain (codec : Codec) (r : WriteResult) (priority : Priority) {q : Queue}
    (h : EvictsInVain q.inner q.limits data.length) :
    ∃ e, (q.tryEnqueue codec r priority data).2 = .error e ∧
      ¬ OnlyRejected q.inner (q.tryEnqueue codec r priority data).1.inner := by
  obtain ⟨hstate,e,he⟩ := enqueueLocked_in_vain priority h
  rw [tryEnqueue_error codec he,hstate]
  refine ⟨e,rfl,fun hsame => h.2.2.1 ?_⟩
  have hbulk := congrArg Inner.bulk hsame
  simpa [evictFirst,Inner.refuse,eq_comm] using hbulk

/-- A rejected item leaves the queue as it was, up to the count of rejections, exactly when
no bulk items are evicted for an item that does not fit beside the control items. -/
theorem rejection_changes_nothing_iff (codec : Codec) (r : WriteResult) (priority : Priority)
    (data : Bytes) (q : Queue) :
    (∀ e, (q.tryEnqueue codec r priority data).2 = .error e →
      OnlyRejected q.inner (q.tryEnqueue codec r priority data).1.inner) ↔
      ¬ EvictsInVain q.inner q.limits data.length := by
  constructor
  · intro h hvain
    obtain ⟨e,he,hchanged⟩ := tryEnqueue_in_vain codec r priority hvain
    exact hchanged (h e he)
  · intro h e he
    rw [(tryEnqueue_inner codec r priority data q).2.2] at he
    cases hlocked : (q.inner.enqueueLocked q.limits priority data).2 with
    | ok accepted =>
      rw [hlocked] at he
      cases he
    | error e' =>
      rw [tryEnqueue_error codec hlocked]
      exact enqueueLocked_error h hlocked

/- Eight bytes and one byte wait, in the control and the bulk lane of a queue for two items and
   ten bytes. -/
def crowded : Queue :=
  ⟨⟨[⟨0,.control,replicate 8 0⟩],[⟨1,.bulk,[0]⟩],2,9,2,0,0,0,0,0,0⟩,
    ⟨2,10,.evictOldest⟩,none⟩

/- Five more bytes are rejected, and the bulk item is gone. -/
theorem rejection_loses_bulk :
    ¬ ∀ (codec : Codec) (r : WriteResult) (priority : Priority) (data : Bytes) (q : Queue),
      ∀ e, (q.tryEnqueue codec r priority data).2 = .error e →
        OnlyRejected q.inner (q.tryEnqueue codec r priority data).1.inner := by
  intro h
  have hvain : EvictsInVain crowded.inner crowded.limits (replicate 5 (0 : UInt8)).length := by
    decide
  obtain ⟨e,he,hchanged⟩ := tryEnqueue_in_vain SpoolJson.jsonCodec .done .bulk hvain
  exact hchanged (h SpoolJson.jsonCodec .done .bulk _ crowded e he)
end

end AetherX.QueueAccounting
