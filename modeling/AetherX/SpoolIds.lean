import AetherX.SpoolAgreement

/-! Item ids over several lifetimes of one spool. The watermark of a queue is rebuilt from
the records that survive, so ids stay fresh only while the newest one does. -/
namespace AetherX.SpoolIds
open StoreAndForward QueueAccounting SpoolAgreement Machine

theorem recoverItem_nextId_le (limits : QueueLimits) (g : Inner) (item : QueuedItem) :
    g.nextId≤(recoverItem limits g item).nextId := by
  rw [recoverItem]
  split_ifs with hfull
  · exact Nat.le_refl _
  · rw [(push_counters _ item).2.2.2.2]
    exact Nat.le_max_left _ _

theorem recover_nextId_le (limits : QueueLimits) (items : List QueuedItem) (g : Inner) :
    g.nextId≤(items.foldl (recoverItem limits) g).nextId := by
  induction items generalizing g with
  | nil => exact Nat.le_refl _
  | cons item items ih => exact Nat.le_trans (recoverItem_nextId_le limits g item) (ih _)

/- Recovery takes no more room than the items it has seen. -/
theorem recover_size_le (limits : QueueLimits) (items : List QueuedItem) (g : Inner) :
    (items.foldl (recoverItem limits) g).pendingItems ≤ g.pendingItems+items.length ∧
      (items.foldl (recoverItem limits) g).pendingBytes ≤ g.pendingBytes+bytesOf items := by
  induction items generalizing g with
  | nil => exact ⟨Nat.le_refl _,Nat.le_refl _⟩
  | cons item items ih =>
    have hstep : (recoverItem limits g item).pendingItems ≤ g.pendingItems+1 ∧
        (recoverItem limits g item).pendingBytes ≤ g.pendingBytes+item.data.length := by
      rw [recoverItem]
      split_ifs with hfull
      · exact ⟨Nat.le_succ _,Nat.le_add_right _ _⟩
      · rw [push_pendingItems,push_pendingBytes]
        exact ⟨Nat.le_refl _,Nat.le_refl _⟩
    obtain ⟨hitems,hbytes⟩ := ih (recoverItem limits g item)
    rw [List.foldl_cons,List.length_cons,bytesOf_cons]
    omega

/-- An item that fits together with everything before it in the file is below the watermark. -/
theorem recover_above (limits : QueueLimits) (before after : List QueuedItem) (item : QueuedItem)
    (hitems : before.length+1 ≤ limits.maxItems)
    (hbytes : bytesOf before+item.data.length ≤ limits.maxBytes) :
    item.id<((before++item::after).foldl (recoverItem limits) Inner.new).nextId := by
  let g := before.foldl (recoverItem limits) Inner.new
  obtain ⟨hcount,hsize⟩ := recover_size_le limits before Inner.new
  have hroom : ¬ (g.pendingItems ≥ limits.maxItems ∨
      g.pendingBytes+item.data.length > limits.maxBytes) := by
    simp only [Inner.pendingItems,Inner.new,List.length_nil] at hcount hsize
    simp only [g,Inner.pendingItems,Inner.new]
    omega
  have haccepted : item.id<(recoverItem limits g item).nextId := by
    rw [recoverItem,if_neg hroom,(push_counters _ item).2.2.2.2]
    exact Nat.lt_of_lt_of_le (Nat.lt_succ_self _) (Nat.le_max_right _ _)
  rw [List.foldl_append,List.foldl_cons]
  exact Nat.lt_of_lt_of_le haccepted (recover_nextId_le limits after _)

/- The queue of the current lifetime and the ids returned in all of them. -/
structure History where
  queue : Queue
  issued : List Nat

/- A restart opens the file that the queue before it left. -/
inductive Event where
  | call (op : Op)
  | restart (limits : QueueLimits) (r : WriteResult)

def issuedBy : Outcome → List Nat
  | .accepted item => [item.id]
  | _ => []

inductive Step (codec : Codec) : History → Event → History → Prop
  | call {s : History} {op : Op} : Step codec s (.call op)
      ⟨(perform codec s.queue op).1,s.issued++issuedBy (perform codec s.queue op).2⟩
  | restart {s : History} {limits : QueueLimits} {r : WriteResult} {spool : Spool} {q : Queue} :
      s.queue.spool=some spool → Queue.openSpool codec limits r spool = .ok q →
        Step codec s (.restart limits r) ⟨q,s.issued⟩

/-- The file holds an item with the highest id returned so far, and has room for it and for all
items before it. -/
def Watermarked (codec : Codec) (limits : QueueLimits) (file : Option Bytes)
    (issued : List Nat) : Prop :=
  ∃ before item after, codec.readSpool file = .ok (before++item::after) ∧
    before.length+1 ≤ limits.maxItems ∧ bytesOf before+item.data.length ≤ limits.maxBytes ∧
      ∀ id∈issued, id ≤ item.id

/- Nothing was returned yet, or the highest id is still on file. -/
def Remembers (codec : Codec) (s : History) : Event → Prop
  | .call _ => True
  | .restart limits _ => s.issued=[] ∨
    ∀ spool, s.queue.spool=some spool → Watermarked codec limits spool.file s.issued

def RememberingStep (codec : Codec) (s : History) (event : Event) (t : History) : Prop :=
  Remembers codec s event ∧ Step codec s event t

section
variable {codec : Codec}

/- Every id returned is below the watermark of the queue, and they are pairwise distinct. -/
structure Fresh (s : History) : Prop where
  below : ∀ id∈s.issued, id < s.queue.inner.nextId
  distinct : s.issued.Nodup

theorem rewriteSpool_nextId (codec : Codec) (r : WriteResult) (q : Queue) :
    (q.rewriteSpool codec r).inner.nextId=q.inner.nextId := by
  obtain ⟨n,hn⟩ := rewriteSpool_inner codec r q
  rw [hn]

/-- A call returns the watermark and raises it, or returns no id and keeps it. -/
theorem perform_nextId (codec : Codec) (q : Queue) (op : Op) :
    (issuedBy (perform codec q op).2=[q.inner.nextId] ∧
      (perform codec q op).1.inner.nextId=q.inner.nextId+1) ∨
    (issuedBy (perform codec q op).2=[] ∧
      (perform codec q op).1.inner.nextId=q.inner.nextId) := by
  cases op with
  | enqueue priority data r =>
    obtain ⟨⟨n,hinner⟩,-,hresult⟩ := tryEnqueue_inner codec r priority data q
    simp only [perform]
    rw [hinner,hresult]
    cases enqueueLocked_cases q.inner q.limits priority data with
    | inl hlarge =>
      obtain ⟨hstate,-,e,he⟩ := hlarge
      rw [hstate,he]
      exact .inr ⟨rfl,rfl⟩
    | inr hfits =>
      obtain ⟨-,k,-,-,hcases⟩ := hfits
      cases hcases with
      | inl hok =>
        rw [hok.1]
        exact .inl ⟨rfl,(push_counters _ _).2.2.2.2⟩
      | inr herr =>
        obtain ⟨hstate,⟨e,he⟩,-⟩ := herr
        rw [hstate,he]
        exact .inr ⟨rfl,rfl⟩
  | flush r => exact .inr ⟨rfl,rewriteSpool_nextId codec r _⟩
  | persist r => exact .inr ⟨rfl,rewriteSpool_nextId codec r q⟩

theorem Fresh.call {s : History} (h : Fresh s) (op : Op) :
    Fresh ⟨(perform codec s.queue op).1,s.issued++issuedBy (perform codec s.queue op).2⟩ := by
  cases perform_nextId codec s.queue op with
  | inl hnew =>
    rw [hnew.1]
    constructor
    · intro id hid
      rw [hnew.2]
      cases List.mem_append.mp hid with
      | inl hold => exact Nat.lt_succ_of_lt (h.below id hold)
      | inr he =>
        rw [List.mem_singleton.mp he]
        exact Nat.lt_succ_self _
    · refine List.nodup_append.mpr ⟨h.distinct,List.pairwise_singleton _ _,?_⟩
      intro id hid id' hid'
      rw [List.mem_singleton.mp hid']
      exact Nat.ne_of_lt (h.below id hid)
  | inr hnone =>
    rw [hnone.1,List.append_nil]
    exact ⟨fun id hid => hnone.2 ▸ h.below id hid,h.distinct⟩

theorem Fresh.restart {s : History} (h : Fresh s) {limits : QueueLimits} {r : WriteResult}
    {spool : Spool} {q : Queue} (hspool : s.queue.spool=some spool)
    (hopen : Queue.openSpool codec limits r spool = .ok q)
    (hmark : Remembers codec s (.restart limits r)) : Fresh ⟨q,s.issued⟩ := by
  refine ⟨?_,h.distinct⟩
  cases hmark with
  | inl hnone => simp [hnone]
  | inr hmark =>
    obtain ⟨before,item,after,hread,hitems,hbytes,hmax⟩ := hmark spool hspool
    obtain ⟨items,hread',rfl⟩ := openSpool_eq_ok codec hopen
    rw [hread] at hread'
    cases hread'
    intro id hid
    rw [rewriteSpool_nextId]
    exact Nat.lt_of_le_of_lt (hmax id hid) (recover_above limits before after item hitems hbytes)

theorem Fresh.step {s t : History} {event : Event} (h : Fresh s)
    (hstep : RememberingStep codec s event t) : Fresh t := by
  obtain ⟨hmark,hstep⟩ := hstep
  cases hstep with
  | call => exact h.call _
  | restart hspool hopen => exact h.restart hspool hopen hmark

/-- Over any calls and restarts on one spool, as long as every restart finds the highest id
returned so far on file and has room for it: no id is returned twice. -/
theorem ids_never_reused (codec : Codec) (q : Queue) (events : List Event) (s : History)
    (hrun : Run (RememberingStep codec) ⟨q,[]⟩ events s) : s.issued.Nodup := by
  have hstart : Fresh ⟨q,[]⟩ := ⟨by simp,List.nodup_nil⟩
  have hfresh := hrun.invariant hstart fun s event t hs hstep => hs.step hstep
  exact hfresh.distinct
end

section
variable (codec : Codec) (limits : QueueLimits)

def opened (q : Queue) : Option Queue :=
  q.spool.bind fun spool => (Queue.openSpool codec limits .done spool).toOption

def restarted (q : Queue) : Queue := (opened codec limits q).getD q

theorem step_restarted {q : Queue} (h : (opened codec limits q).isSome=true) (issued : List Nat) :
    Step codec ⟨q,issued⟩ (.restart limits .done) ⟨restarted codec limits q,issued⟩ := by
  obtain ⟨q',hq'⟩ := Option.isSome_iff_exists.mp h
  obtain ⟨spool,hspool,hopen⟩ := Option.bind_eq_some_iff.mp hq'
  rw [restarted,hq']
  cases hresult : Queue.openSpool codec limits .done spool with
  | error e =>
    rw [hresult] at hopen
    cases hopen
  | ok q'' =>
    rw [hresult] at hopen
    cases hopen
    exact .restart hspool hresult

theorem step_call {q : Queue} {op : Op} {issued : List Nat} (ids : List Nat)
    (h : issuedBy (perform codec q op).2=ids) :
    Step codec ⟨q,issued⟩ (.call op) ⟨(perform codec q op).1,issued++ids⟩ := by
  subst h
  exact .call
end

def enqueueByte (priority : Priority) (b : UInt8) : Op := .enqueue priority [b] .done

/- Two items, both on file at the restart, which has just enough room for them. -/
def twoItems : Queue :=
  [enqueueByte .bulk 1,enqueueByte .control 2].foldl
    (fun q op => (perform SpoolJson.jsonCodec q op).1) (freshQueue ⟨10,10,.rejectNew⟩)

theorem twoItems_remembered :
    Remembers SpoolJson.jsonCodec ⟨twoItems,[0,1]⟩ (.restart ⟨2,2,.evictOldest⟩ .done) := by
  refine .inr fun spool hspool => ⟨[⟨0,.bulk,[1]⟩],⟨1,.control,[2]⟩,[],?_,by decide,by decide,
    by decide⟩
  have hread : (SpoolJson.jsonCodec.readSpool (twoItems.spool.bind Spool.file)).toOption =
      some [⟨0,.bulk,[1]⟩,⟨1,.control,[2]⟩] := by decide +kernel
  rw [hspool,Option.bind_some] at hread
  cases hresult : SpoolJson.jsonCodec.readSpool spool.file with
  | error e =>
    rw [hresult] at hread
    cases hread
  | ok items =>
    rw [hresult] at hread
    cases hread
    rfl

def keptEvents : List Event :=
  [.call (enqueueByte .bulk 1),.call (enqueueByte .control 2),.restart ⟨2,2,.evictOldest⟩ .done,
    .call (.flush .done),.call (enqueueByte .bulk 3)]

theorem run_keptEvents : ∃ s, Run (RememberingStep SpoolJson.jsonCodec)
    ⟨freshQueue ⟨10,10,.rejectNew⟩,[]⟩ keptEvents s ∧ s.issued=[0,1,2] :=
  ⟨_,.cons ⟨trivial,step_call _ [0] (by decide +kernel)⟩
    (.cons ⟨trivial,step_call _ [1] (by decide +kernel)⟩
      (.cons ⟨twoItems_remembered,step_restarted _ _ (by decide +kernel) _⟩
        (.cons ⟨trivial,step_call _ [] (by decide +kernel)⟩
          (.cons ⟨trivial,step_call _ [2] (by decide +kernel)⟩ (.refl _))))),rfl⟩

theorem ids_never_reused_two_items :
    ∃ s, Run (RememberingStep SpoolJson.jsonCodec) ⟨freshQueue ⟨10,10,.rejectNew⟩,[]⟩ keptEvents s ∧
      s.issued=[0,1,2] ∧ s.issued.Nodup := by
  obtain ⟨s,hrun,hissued⟩ := run_keptEvents
  exact ⟨s,hrun,hissued,ids_never_reused _ _ keptEvents s hrun⟩

def Clean : Event → Prop
  | .call op => Written op
  | .restart _ r => r = .done

/- The only item is flushed, and the file a restart finds is empty. -/
theorem ids_reused_after_flush :
    ¬ ∀ codec : Codec, codec.Exact → ∀ limits spool q,
      Queue.openSpool codec limits .done spool = .ok q → ∀ events, (∀ event∈events, Clean event) →
        ∀ s, Run (Step codec) ⟨q,[]⟩ events s → s.issued.Nodup := by
  intro hall
  have hrun := hall _ SpoolJson.jsonCodec_exact _ _ _ (openSpool_fresh ⟨10,10,.rejectNew⟩)
    [.call (enqueueByte .bulk 1),.call (.flush .done),.restart ⟨10,10,.rejectNew⟩ .done,
      .call (enqueueByte .bulk 2)] (by simp [Clean,Written,enqueueByte]) _
    (.cons (step_call _ [0] (by decide +kernel)) (.cons (step_call _ [] (by decide +kernel))
      (.cons (step_restarted _ _ (by decide +kernel) _)
        (.cons (step_call _ [0] (by decide +kernel)) (.refl _)))))
  exact absurd hrun (by decide)

end AetherX.SpoolIds
