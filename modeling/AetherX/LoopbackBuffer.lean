import Mathlib.Data.Finset.Card
import Mathlib.Data.List.Lookmap
import AetherX.Supervisor

/-! Segments held until they are acknowledged, in use by several threads. A segment draws its
sequence number before it takes the lock of the buffer, and every other call is one section. -/
namespace AetherX.LoopbackBuffer
open Supervisor (Instant Duration)
open Machine List

/- The number of the draw tells segments apart that have come to share a sequence number; no call
   reads it. -/
structure BufferedSegment where
  seq : UInt64
  data : List UInt8
  createdAt : Instant
  acked : Bool
  draw : Nat
  deriving DecidableEq

structure Buffer where
  buffer : List BufferedSegment
  capacity : Nat
  nextSeq : UInt64
  totalBuffered : UInt64
  totalAcked : UInt64
  totalDropped : UInt64

namespace Buffer
def new (capacity : Nat) : Buffer := ⟨[],max capacity 1,1,0,0,0⟩

def unackedSegments (b : Buffer) : List BufferedSegment := b.buffer.filter fun s => !s.acked

def drawSeq (b : Buffer) : Buffer := { b with nextSeq := b.nextSeq+1 }

/- The oldest segment goes when the buffer is full, acknowledged or not. -/
def room (b : Buffer) : List BufferedSegment :=
  if b.capacity ≤ b.buffer.length then b.buffer.tail else b.buffer

def push (b : Buffer) (segment : BufferedSegment) : Buffer :=
  { b with
    buffer := b.room++[segment]
    totalBuffered := b.totalBuffered+1
    totalDropped := if b.capacity ≤ b.buffer.length ∧ b.buffer≠[] then b.totalDropped+1
      else b.totalDropped }

def find (b : Buffer) (seq : UInt64) : Option BufferedSegment := b.buffer.find? fun s => s.seq=seq

def ack (b : Buffer) (seq : UInt64) : Buffer × Bool :=
  match b.find seq with
  | some _ =>
    ({ b with
      buffer := b.buffer.lookmap fun s => if s.seq=seq then some { s with acked := true } else none
      totalAcked := b.totalAcked+1 }, true)
  | none => (b, false)

/- What a cumulative acknowledgement covers and none has covered before. -/
def covers (seq : UInt64) (s : BufferedSegment) : Bool := s.seq ≤ seq && !s.acked

def ackUpTo (b : Buffer) (seq : UInt64) : Buffer × Nat :=
  let count := b.buffer.countP (covers seq)
  ({ b with
    buffer := b.buffer.map fun s => if covers seq s then { s with acked := true } else s
    totalAcked := if 0 < count then b.totalAcked+count.toUInt64 else b.totalAcked }, count)

def pruneAcked (b : Buffer) (olderThan : Duration) (now : Instant) : Buffer × Nat :=
  let kept := b.buffer.filter fun s => if s.acked then decide (now-s.createdAt < olderThan) else true
  ({ b with buffer := kept }, b.buffer.length-kept.length)

end Buffer

def numbers (segments : List BufferedSegment) : Finset Nat :=
  (segments.map BufferedSegment.draw).toFinset

/- A buffer in use by any number of threads, with the segments that have drawn their numbers and
   wait for the lock, and the numbers of those that have ever been acknowledged. -/
structure System (τ : Type*) where
  buffer : Buffer
  task : τ → Option BufferedSegment
  draws : Nat
  acknowledged : Finset Nat

inductive Section (τ : Type*) where
  | draw (t : τ) (data : List UInt8) (now : Instant)
  | push (t : τ)
  | ack (seq : UInt64)
  | ackUpTo (seq : UInt64)
  | pruneAcked (olderThan : Duration) (now : Instant)

section
variable {τ : Type*} [DecidableEq τ]

namespace System
def step (s : System τ) : Section τ → System τ
  | .draw t data now =>
    match s.task t with
    | none =>
      { s with
        buffer := s.buffer.drawSeq
        task := Function.update s.task t (some ⟨s.buffer.nextSeq,data,now,false,s.draws⟩)
        draws := s.draws+1 }
    | some _ => s
  | .push t =>
    match s.task t with
    | some segment =>
      { s with
        buffer := s.buffer.push segment
        task := Function.update s.task t none }
    | none => s
  | .ack seq =>
    { s with
      buffer := (s.buffer.ack seq).1
      acknowledged := s.acknowledged ∪ numbers (s.buffer.find seq).toList }
  | .ackUpTo seq =>
    { s with
      buffer := (s.buffer.ackUpTo seq).1
      acknowledged := s.acknowledged ∪ numbers (s.buffer.buffer.filter (Buffer.covers seq)) }
  | .pruneAcked olderThan now => { s with buffer := (s.buffer.pruneAcked olderThan now).1 }

def start (capacity : Nat) : System τ := ⟨.new capacity,fun _ => none,0,∅⟩

def run (capacity : Nat) (sections : List (Section τ)) : System τ :=
  sections.foldl step (start capacity)

end System

def Ordered (s : System τ) : Prop :=
  s.buffer.unackedSegments.Pairwise fun a b => a.seq < b.seq

def Counted (s : System τ) : Prop := s.buffer.totalAcked.toNat=s.acknowledged.card

instance (s : System τ) : Decidable (Ordered s) := inferInstanceAs (Decidable (List.Pairwise _ _))

instance (s : System τ) : Decidable (Counted s) := inferInstanceAs (Decidable (_=_))

/- A segment is pushed only behind those that drew before it. -/
def PushesInOrder (s : System τ) : Section τ → Prop
  | .push t =>
    match s.task t with
    | some segment => ∀ a∈s.buffer.room, a.acked=false → a.seq < segment.seq
    | none => True
  | _ => True

/- No segment is acknowledged by its number once more, and the count has not run full. -/
def AcksOnce (s : System τ) : Section τ → Prop
  | .ack seq => ∀ a, s.buffer.find seq=some a →
    a.acked=false ∧ s.buffer.totalAcked.toNat+1<2^64
  | .ackUpTo seq =>
    s.buffer.totalAcked.toNat+s.buffer.buffer.countP (Buffer.covers seq)<2^64
  | _ => True

/-- Segments have numbers of their own, and a segment in the buffer is marked exactly if it has
been acknowledged. -/
structure Formed (s : System τ) : Prop where
  once : (s.buffer.buffer.map BufferedSegment.draw).Nodup
  known : ∀ a∈s.buffer.buffer, a.draw < s.draws
  marked : ∀ a∈s.buffer.buffer, a.acked=true ↔ a.draw∈s.acknowledged
  drawn : ∀ n∈s.acknowledged, n < s.draws
  held : Ticketed BufferedSegment.draw s.task s.draws
  pending : ∀ t a, s.task t=some a → a.acked=false ∧ a.draw∉s.acknowledged ∧
    a.draw∉s.buffer.buffer.map BufferedSegment.draw
end

section
def mark (hits : Finset Nat) (a : BufferedSegment) : BufferedSegment :=
  if a.draw∈hits then { a with acked := true } else a

theorem mark_draw (hits : Finset Nat) (a : BufferedSegment) : (mark hits a).draw=a.draw := by
  rw [mark]
  split_ifs <;> rfl

theorem mark_acked (hits : Finset Nat) (a : BufferedSegment) :
    (mark hits a).acked=true ↔ a.acked=true ∨ a.draw∈hits := by
  rw [mark]
  split_ifs with hmem <;> simp [hmem]

theorem map_mark_draw (hits : Finset Nat) (l : List BufferedSegment) :
    (l.map (mark hits)).map BufferedSegment.draw=l.map BufferedSegment.draw := by
  rw [map_map]
  exact map_congr_left fun a _ => mark_draw hits a

theorem mem_numbers {l : List BufferedSegment} {n : Nat} : n∈numbers l ↔ ∃ a∈l, a.draw=n := by
  simp [numbers]

variable {b : Buffer}

theorem mark_of_not_mem {hits : Finset Nat} {a : BufferedSegment} (h : a.draw∉hits) :
    mark hits a=a :=
  if_neg h

theorem lookmap_eq_mark (seq : UInt64) {l : List BufferedSegment}
    (hl : (l.map BufferedSegment.draw).Nodup) :
    (l.lookmap fun s => if s.seq=seq then some { s with acked := true } else none) =
      l.map (mark (numbers (l.find? fun s => s.seq=seq).toList)) := by
  induction l with
  | nil => rfl
  | cons a l ih =>
    obtain ⟨hfresh,hrest⟩ := nodup_cons.mp hl
    by_cases hseq : a.seq=seq
    · have hothers : l.map (mark (numbers [a]))=l := by
        refine (map_congr_left fun x hx => mark_of_not_mem ?_).trans (map_id l)
        intro hmem
        obtain ⟨y,hy,hdraw⟩ := mem_numbers.mp hmem
        rw [mem_singleton.mp hy] at hdraw
        exact hfresh (by rw [hdraw]; exact mem_map_of_mem hx)
      rw [lookmap_cons_some _ _ (by rw [if_pos hseq]),
        find?_cons_of_pos (by simpa using hseq),Option.toList_some,map_cons,hothers,
        mark,if_pos (mem_numbers.mpr ⟨a,mem_singleton_self a,rfl⟩)]
    · have hsame : mark (numbers (l.find? fun s => s.seq=seq).toList) a=a := by
        refine mark_of_not_mem fun hmem => ?_
        obtain ⟨y,hy,hdraw⟩ := mem_numbers.mp hmem
        rw [Option.mem_toList] at hy
        exact hfresh (by rw [← hdraw]; exact mem_map_of_mem (mem_of_find?_eq_some hy))
      rw [lookmap_cons_none _ _ (by rw [if_neg hseq]),ih hrest,
        find?_cons_of_neg (by simpa using hseq),map_cons,hsame]

theorem ack_buffer (honce : (b.buffer.map BufferedSegment.draw).Nodup) (seq : UInt64) :
    (b.ack seq).1.buffer=b.buffer.map (mark (numbers (b.find seq).toList)) := by
  rw [Buffer.ack]
  split
  next a hfind => exact lookmap_eq_mark seq honce
  next hfind =>
    rw [hfind]
    exact ((map_congr_left fun x _ => mark_of_not_mem (by simp [numbers])).trans
      (map_id _)).symm

theorem ackUpTo_buffer (honce : (b.buffer.map BufferedSegment.draw).Nodup) (seq : UInt64) :
    (b.ackUpTo seq).1.buffer =
      b.buffer.map (mark (numbers (b.buffer.filter (Buffer.covers seq)))) := by
  refine map_congr_left fun a ha => ?_
  have hhit : a.draw∈numbers (b.buffer.filter (Buffer.covers seq)) ↔
      Buffer.covers seq a=true := by
    constructor
    · intro hmem
      obtain ⟨y,hy,hdraw⟩ := mem_numbers.mp hmem
      obtain ⟨hin,hcovers⟩ := mem_filter.mp hy
      rwa [← inj_on_of_nodup_map honce hin ha hdraw]
    · intro hcovers
      exact mem_numbers.mpr ⟨a,mem_filter.mpr ⟨ha,hcovers⟩,rfl⟩
  simp only [mark,hhit]

/-- Marking takes segments out of those that are to be replayed, in place. -/
theorem unacked_mark_sublist (hits : Finset Nat) (l : List BufferedSegment) :
    ((l.map (mark hits)).filter fun s => !s.acked).Sublist (l.filter fun s => !s.acked) := by
  induction l with
  | nil => exact .slnil
  | cons a l ih =>
    by_cases hacked : a.acked=true ∨ a.draw∈hits
    · have hmarked := (mark_acked hits a).mpr hacked
      rw [map_cons,filter_cons_of_neg (by simp [hmarked])]
      exact ih.trans ((sublist_cons_self a l).filter _)
    · have hopen : a.acked=false := by simpa using fun h => hacked (Or.inl h)
      rw [map_cons,mark_of_not_mem fun h => hacked (Or.inr h),
        filter_cons_of_pos (by simp [hopen]),filter_cons_of_pos (by simp [hopen])]
      exact ih.cons_cons a
end

section
variable {τ : Type*} [DecidableEq τ] {s : System τ}

theorem room_sublist (b : Buffer) : b.room.Sublist b.buffer := by
  rw [Buffer.room]
  split_ifs
  · exact tail_sublist _
  · exact .refl _

theorem Formed.draw (h : Formed s) (t : τ) (data : List UInt8) (now : Instant) :
    Formed (s.step (.draw t data now)) := by
  rw [System.step]
  split
  next hidle =>
    have hfresh : s.draws∉s.buffer.buffer.map BufferedSegment.draw := by
      intro hmem
      obtain ⟨a,ha,hdraw⟩ := mem_map.mp hmem
      exact Nat.lt_irrefl _ (hdraw ▸ h.known a ha)
    have hnew : s.draws∉s.acknowledged := fun hmem => Nat.lt_irrefl _ (h.drawn _ hmem)
    refine ⟨h.once,fun a ha => Nat.lt_succ_of_lt (h.known a ha),h.marked,
      fun n hn => Nat.lt_succ_of_lt (h.drawn n hn),h.held.draw rfl t,fun u a hu => ?_⟩
    rcases update_eq_iff.mp hu with ⟨-,heq⟩ | ⟨-,hold⟩
    · obtain rfl := Option.some.inj heq
      exact ⟨rfl,hnew,hfresh⟩
    · exact h.pending u a hold
  next => exact h

theorem Formed.push (h : Formed s) (t : τ) : Formed (s.step (.push t)) := by
  rw [System.step]
  split
  next segment htask =>
    obtain ⟨hacked,hnew,hfresh⟩ := h.pending t segment htask
    have hroom : ∀ a∈s.buffer.room, a∈s.buffer.buffer := (room_sublist s.buffer).subset
    have hmem : ∀ a, a∈(s.buffer.push segment).buffer → a∈s.buffer.buffer ∨ a=segment := by
      intro a ha
      rcases mem_append.mp ha with hold | hlast
      · exact Or.inl (hroom a hold)
      · exact Or.inr (mem_singleton.mp hlast)
    refine ⟨?_,fun a ha => ?_,fun a ha => ?_,h.drawn,h.held.drop t,fun u a hu => ?_⟩
    · have hkept := (room_sublist s.buffer).map BufferedSegment.draw
      have hdraws := (h.once.sublist hkept).concat fun hn => hfresh (hkept.subset hn)
      simpa [Buffer.push] using hdraws
    · rcases hmem a ha with hold | rfl
      · exact h.known a hold
      · exact h.held.drawn t a htask
    · rcases hmem a ha with hold | rfl
      · exact h.marked a hold
      · exact iff_of_false (by simp [hacked]) hnew
    · rcases update_eq_iff.mp hu with ⟨-,hnone⟩ | ⟨hut,hold⟩
      · cases hnone
      obtain ⟨hacked',hnew',hfresh'⟩ := h.pending u a hold
      refine ⟨hacked',hnew',fun hin => ?_⟩
      obtain ⟨x,hx,hdraw⟩ := mem_map.mp hin
      rcases hmem x hx with hx' | rfl
      · exact hfresh' (by rw [← hdraw]; exact mem_map_of_mem hx')
      · exact hut (h.held.apart u t a x hold htask hdraw.symm)
  next => exact h

omit [DecidableEq τ] in
theorem Formed.mark (h : Formed s) {buffer : Buffer} {hits : Finset Nat}
    (hits_mem : ∀ n∈hits, n∈s.buffer.buffer.map BufferedSegment.draw)
    (hbuffer : buffer.buffer=s.buffer.buffer.map (mark hits)) :
    Formed { s with buffer := buffer, acknowledged := s.acknowledged ∪ hits } := by
  have hdraws : buffer.buffer.map BufferedSegment.draw =
      s.buffer.buffer.map BufferedSegment.draw := by rw [hbuffer,map_mark_draw]
  have hknown : ∀ n∈s.buffer.buffer.map BufferedSegment.draw, n < s.draws := by
    intro n hn
    obtain ⟨a,ha,rfl⟩ := mem_map.mp hn
    exact h.known a ha
  refine ⟨by rw [hdraws]; exact h.once,fun a ha => ?_,fun a ha => ?_,fun n hn => ?_,h.held,
    fun t a ht => ?_⟩
  · exact hknown _ (by rw [← hdraws]; exact mem_map_of_mem ha)
  · obtain ⟨x,hx,rfl⟩ := mem_map.mp (hbuffer ▸ ha)
    rw [mark_acked,mark_draw,h.marked x hx,Finset.mem_union]
  · rcases Finset.mem_union.mp hn with hold | hhit
    · exact h.drawn n hold
    · exact hknown n (hits_mem n hhit)
  · obtain ⟨hacked,hnew,hfresh⟩ := h.pending t a ht
    refine ⟨hacked,fun hmem => ?_,by rw [hdraws]; exact hfresh⟩
    rcases Finset.mem_union.mp hmem with hold | hhit
    · exact hnew hold
    · exact hfresh (hits_mem _ hhit)

theorem numbers_mem {l l' : List BufferedSegment} (h : ∀ a∈l, a∈l') :
    ∀ n∈numbers l, n∈l'.map BufferedSegment.draw := by
  intro n hn
  obtain ⟨a,ha,rfl⟩ := mem_numbers.mp hn
  exact mem_map_of_mem (h a ha)

theorem Formed.prune (h : Formed s) (olderThan : Duration) (now : Instant) :
    Formed (s.step (.pruneAcked olderThan now)) := by
  have hkept : (s.buffer.pruneAcked olderThan now).1.buffer.Sublist s.buffer.buffer :=
    filter_sublist
  refine ⟨h.once.sublist (hkept.map _),fun a ha => h.known a (hkept.subset ha),
    fun a ha => h.marked a (hkept.subset ha),h.drawn,h.held,fun t a ht => ?_⟩
  obtain ⟨hacked,hnew,hfresh⟩ := h.pending t a ht
  exact ⟨hacked,hnew,fun hmem => hfresh ((hkept.map _).subset hmem)⟩

theorem Formed.step (h : Formed s) (sec : Section τ) : Formed (s.step sec) := by
  cases sec with
  | draw t data now => exact h.draw t data now
  | push t => exact h.push t
  | ack seq =>
    have hfound : ∀ a∈(s.buffer.find seq).toList, a∈s.buffer.buffer := fun a ha =>
      mem_of_find?_eq_some (Option.mem_toList.mp ha)
    exact h.mark (numbers_mem hfound) (ack_buffer h.once seq)
  | ackUpTo seq =>
    exact h.mark (numbers_mem fun a ha => (mem_filter.mp ha).1) (ackUpTo_buffer h.once seq)
  | pruneAcked olderThan now => exact h.prune olderThan now

omit [DecidableEq τ] in
theorem Ordered.sublist (h : Ordered s) {s' : System τ}
    (hsub : s'.buffer.unackedSegments.Sublist s.buffer.unackedSegments) : Ordered s' :=
  List.Pairwise.sublist hsub h

theorem Ordered.push_iff (hformed : Formed s) (h : Ordered s) (t : τ) :
    Ordered (s.step (.push t)) ↔ PushesInOrder s (.push t) := by
  cases htask : s.task t with
  | none => simpa [System.step,PushesInOrder,htask] using h
  | some segment =>
    have hopen := (hformed.pending t segment htask).1
    have hunacked : (s.buffer.push segment).unackedSegments =
        (s.buffer.room.filter fun a => !a.acked)++[segment] := by
      simp [Buffer.unackedSegments,Buffer.push,hopen]
    have hroom : (s.buffer.room.filter fun a => !a.acked).Pairwise fun a b => a.seq < b.seq :=
      List.Pairwise.sublist ((room_sublist s.buffer).filter _) h
    simp only [System.step,PushesInOrder,htask,Ordered,hunacked,pairwise_append,
      pairwise_singleton,mem_singleton,mem_filter,Bool.not_eq_true',
      forall_eq,and_imp,true_and]
    exact and_iff_right hroom

/-- Only a push can bring the segments out of order. -/
theorem Ordered.step_iff (hformed : Formed s) (h : Ordered s) (sec : Section τ) :
    Ordered (s.step sec) ↔ PushesInOrder s sec := by
  cases sec with
  | draw t data now =>
    refine iff_of_true (h.sublist ?_) trivial
    cases htask : s.task t <;> simp [System.step,htask,Buffer.drawSeq,Buffer.unackedSegments]
  | push t => exact h.push_iff hformed t
  | ack seq =>
    refine iff_of_true (h.sublist ?_) trivial
    simp only [System.step,Buffer.unackedSegments,ack_buffer hformed.once]
    exact unacked_mark_sublist _ _
  | ackUpTo seq =>
    refine iff_of_true (h.sublist ?_) trivial
    simp only [System.step,Buffer.unackedSegments,ackUpTo_buffer hformed.once]
    exact unacked_mark_sublist _ _
  | pruneAcked olderThan now =>
    exact iff_of_true (h.sublist (filter_sublist.filter _)) trivial

theorem Counted.ack_iff (hformed : Formed s) (h : Counted s) (seq : UInt64) :
    Counted (s.step (.ack seq)) ↔ AcksOnce s (.ack seq) := by
  have hlt := s.buffer.totalAcked.toNat_lt
  cases hfind : s.buffer.find seq with
  | none => simpa [System.step,AcksOnce,Counted,Buffer.ack,hfind,numbers] using h
  | some a =>
    have hmarked := hformed.marked a (mem_of_find?_eq_some hfind)
    have hcard : (s.acknowledged ∪ {a.draw}).card =
        s.acknowledged.card+if a.acked then 0 else 1 := by
      cases hacked : a.acked with
      | true =>
        rw [Finset.union_eq_left.mpr (Finset.singleton_subset_iff.mpr (hmarked.mp hacked))]
        rfl
      | false =>
        have hnew : a.draw∉s.acknowledged := fun hmem => by simp [hmarked.mpr hmem] at hacked
        rw [Finset.union_comm,← Finset.insert_eq,Finset.card_insert_of_notMem hnew]
        rfl
    rw [Counted] at h
    have htotal : (s.buffer.totalAcked+1).toNat=(s.acknowledged.card+1)%2^64 := by
      rw [UInt64.toNat_add,h]
      rfl
    simp only [System.step,AcksOnce,Counted,Buffer.ack,hfind,Option.toList_some,numbers,
      map_cons,map_nil,toFinset_cons,toFinset_nil,insert_empty_eq,
      htotal,hcard,Option.some.injEq,forall_eq',h]
    cases a.acked with
    | true =>
      simp only [if_true,Bool.true_eq_false,false_and,iff_false]
      omega
    | false =>
      simp only [Bool.false_eq_true,if_false,true_and]
      omega

theorem Counted.ackUpTo_iff (hformed : Formed s) (h : Counted s) (seq : UInt64) :
    Counted (s.step (.ackUpTo seq)) ↔ AcksOnce s (.ackUpTo seq) := by
  have hdisjoint : Disjoint s.acknowledged (numbers (s.buffer.buffer.filter (Buffer.covers seq))) := by
    refine Finset.disjoint_right.mpr fun n hn hmem => ?_
    obtain ⟨a,ha,rfl⟩ := mem_numbers.mp hn
    obtain ⟨hin,hcovers⟩ := mem_filter.mp ha
    have hacked := (hformed.marked a hin).mpr hmem
    simp [Buffer.covers,hacked] at hcovers
  have hcard : (numbers (s.buffer.buffer.filter (Buffer.covers seq))).card =
      s.buffer.buffer.countP (Buffer.covers seq) := by
    rw [numbers,toFinset_card_of_nodup (hformed.once.sublist (filter_sublist.map _)),
      length_map,countP_eq_length_filter]
  have htotal : (s.buffer.ackUpTo seq).1.totalAcked.toNat =
      (s.buffer.totalAcked.toNat+s.buffer.buffer.countP (Buffer.covers seq))%2^64 := by
    have hlt := s.buffer.totalAcked.toNat_lt
    simp only [Buffer.ackUpTo]
    split_ifs with hpos
    · simp [UInt64.toNat_add]
    · rw [Nat.eq_zero_of_not_pos hpos,Nat.add_zero,Nat.mod_eq_of_lt hlt]
  rw [Counted] at h
  simp only [System.step,AcksOnce,Counted,htotal,Finset.card_union_of_disjoint hdisjoint,hcard,
    ← h]
  omega

/-- Only an acknowledgement can bring the count out of step. -/
theorem Counted.step_iff (hformed : Formed s) (h : Counted s) (sec : Section τ) :
    Counted (s.step sec) ↔ AcksOnce s sec := by
  cases sec with
  | draw t data now =>
    refine iff_of_true ?_ trivial
    cases htask : s.task t <;> simpa [System.step,htask,Buffer.drawSeq,Counted] using h
  | push t =>
    refine iff_of_true ?_ trivial
    cases htask : s.task t <;> simpa [System.step,htask,Buffer.push,Counted] using h
  | ack seq => exact h.ack_iff hformed seq
  | ackUpTo seq => exact h.ackUpTo_iff hformed seq
  | pruneAcked olderThan now => exact iff_of_true h trivial
end

/-- The segments to be replayed stand in order all along an interleaving exactly when every push is
in the order of the draws, and the count of acknowledged segments is right all along it exactly when
none is acknowledged by its number once more. -/
theorem buffer_accounts_iff {τ : Type*} [DecidableEq τ] (capacity : Nat)
    (sections : List (Section τ)) :
    ((∀ before after, sections=before++after → Ordered (System.run capacity before)) ↔
      ∀ before sec after, sections=before++sec::after →
        PushesInOrder (System.run capacity before) sec) ∧
    ((∀ before after, sections=before++after → Counted (System.run capacity before)) ↔
      ∀ before sec after, sections=before++sec::after →
        AcksOnce (System.run capacity before) sec) := by
  have hformed : Formed (System.start capacity : System τ) :=
    ⟨.nil,by simp [System.start,Buffer.new],by simp [System.start,Buffer.new],
      by simp [System.start],⟨by simp [System.start],by simp [System.start]⟩,
      by simp [System.start]⟩
  exact ⟨foldl_along_iff Formed (fun s sec h => h.step sec) (fun s sec hf h => h.step_iff hf sec)
      sections hformed .nil,
    foldl_along_iff Formed (fun s sec h => h.step sec) (fun s sec hf h => h.step_iff hf sec)
      sections hformed rfl⟩

/-- Two segments that were drawn one after the other may be pushed in the other order, and a
segment that is acknowledged twice is counted twice. -/
theorem buffer_disordered_and_miscounted :
    (¬ ∀ (capacity : Nat) (sections : List (Section Bool)), Ordered (System.run capacity sections)) ∧
    ¬ ∀ (capacity : Nat) (sections : List (Section Bool)), Counted (System.run capacity sections) := by
  constructor
  · intro h
    have hordered := h 10 [.draw true [1] 0,.draw false [2] 0,.push false,.push true]
    exact absurd hordered (by decide +kernel)
  · intro h
    have hcounted := h 10 [.draw true [1] 0,.push true,.ack 1,.ack 1]
    exact absurd hcounted (by decide +kernel)

end AetherX.LoopbackBuffer
