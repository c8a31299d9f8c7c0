import Mathlib.Data.List.Nodup
import Mathlib.Data.List.Range
import AetherX.Supervisor

/-! The ring of unacknowledged frames that is replayed when a transport drops. Whatever is
pushed, acknowledged and replayed, the ring is a window onto the sequence of frames pushed
so far: retiring a frame only ever moves the lower end of that window. -/
namespace AetherX.BufferReplay
open Supervisor Machine List

def lossSpikeThreshold : Float := 0.15

structure Frame where
  seq : Nat
  data : List UInt8
  sentAt : Instant
  hops : Nat
  deriving DecidableEq

def Frame.hop (f : Frame) : Frame := { f with hops := f.hops+1 }

structure RingBufferReplay where
  frames : List Frame
  capacity : Nat
  nextSeq : Nat
  replayCount : Nat
  droppedCount : Nat
  maxHops : Nat

namespace RingBufferReplay
def withMaxHops (capacity maxHops : Nat) : RingBufferReplay :=
  ⟨[],max capacity 1,0,0,0,maxHops⟩

def new (capacity : Nat) : RingBufferReplay := withMaxHops capacity 8

/- A full ring gives up its oldest frame. -/
def evict (rb : RingBufferReplay) : RingBufferReplay :=
  if rb.capacity ≤ rb.frames.length then
    { rb with frames := rb.frames.drop 1, droppedCount := rb.droppedCount+1 }
  else rb

def push (rb : RingBufferReplay) (data : List UInt8) (now : Instant) : RingBufferReplay × Nat :=
  let rb := rb.evict
  ({ rb with nextSeq := rb.nextSeq+1, frames := rb.frames++[⟨rb.nextSeq,data,now,0⟩] },
    rb.nextSeq)

def ack (rb : RingBufferReplay) (uptoSeq : Nat) : RingBufferReplay × Nat :=
  let kept := rb.frames.filter fun f => uptoSeq < f.seq
  ({ rb with frames := kept }, rb.frames.length-kept.length)

def pending (rb : RingBufferReplay) : Nat := rb.frames.length

def replayAll (rb : RingBufferReplay) : RingBufferReplay × List Frame :=
  let kept := (rb.frames.filter fun f => f.hops < rb.maxHops).map Frame.hop
  ({ rb with frames := kept, replayCount := rb.replayCount+1 }, kept)

def onLossSpike (rb : RingBufferReplay) (lossRate : Float) :
    RingBufferReplay × Option (List Frame) :=
  if lossRate > lossSpikeThreshold then (rb.replayAll.1, some rb.replayAll.2) else (rb, none)

def onDrop (rb : RingBufferReplay) : RingBufferReplay × List Frame := rb.replayAll

end RingBufferReplay

inductive Call where
  | push (data : List UInt8) (now : Instant)
  | ack (uptoSeq : Nat)
  | replayAll
  | onLossSpike (lossRate : Float)
  | onDrop

/- The ring with what was pushed so far, oldest first, and every frame a replay returned. -/
structure Session where
  rb : RingBufferReplay
  sent : List (List UInt8 × Instant)
  returned : List Frame

def Session.next (s : Session) : Call → Session
  | .push data now => { s with rb := (s.rb.push data now).1, sent := s.sent++[(data, now)] }
  | .ack uptoSeq => { s with rb := (s.rb.ack uptoSeq).1 }
  | .replayAll => { s with rb := s.rb.replayAll.1, returned := s.returned++s.rb.replayAll.2 }
  | .onLossSpike lossRate =>
    let (rb, frames) := s.rb.onLossSpike lossRate
    { s with rb := rb, returned := s.returned++frames.getD [] }
  | .onDrop => { s with rb := s.rb.onDrop.1, returned := s.returned++s.rb.onDrop.2 }

def session (capacity maxHops : Nat) (calls : List Call) : Session :=
  calls.foldl Session.next ⟨.withMaxHops capacity maxHops,[],[]⟩

def Session.returns (s : Session) (seq : Nat) : Nat := (s.returned.map Frame.seq).count seq

/-- A filter that keeps whatever stands behind something it keeps drops a first part. -/
theorem exists_filter_eq_drop {α : Type*} (p : α → Bool) {xs : List α}
    (h : xs.Pairwise fun a b => p a=true → p b=true) :
    ∃ k ≤ xs.length, xs.filter p=xs.drop k := by
  induction xs with
  | nil => exact ⟨0,Nat.le_refl _,rfl⟩
  | cons a xs ih =>
    rw [pairwise_cons] at h
    by_cases ha : p a=true
    · refine ⟨0,Nat.zero_le _,?_⟩
      have hall : ∀ b∈a::xs, p b=true := by
        intro b hb
        rcases mem_cons.mp hb with rfl | hb
        · exact ha
        · exact h.1 b hb ha
      rw [filter_eq_self.mpr hall,drop_zero]
    · obtain ⟨k,hk,heq⟩ := ih h.2
      exact ⟨k+1,Nat.succ_le_succ hk,by rw [filter_cons_of_neg ha,heq,drop_succ_cons]⟩

/-- The ring is the window from lo on, and the hop counts are the numbers of returns. -/
structure Window (s : Session) (lo : Nat) : Prop where
  lower : lo ≤ s.sent.length
  next : s.rb.nextSeq=s.sent.length
  seqs : s.rb.frames.map Frame.seq=List.range' lo (s.sent.length-lo)
  payloads : s.rb.frames.map (fun f => (f.data, f.sentAt))=s.sent.drop lo
  hops : s.rb.frames.Pairwise fun f g => g.hops ≤ f.hops
  hops_le : ∀ f∈s.rb.frames, f.hops ≤ s.rb.maxHops
  returns_eq : ∀ f∈s.rb.frames, s.returns f.seq=f.hops
  returns_le : ∀ seq, s.returns seq ≤ s.rb.maxHops
  unsent : ∀ seq, s.sent.length ≤ seq → s.returns seq=0
  room : s.rb.frames.length ≤ s.rb.capacity

section
variable {s : Session} {lo : Nat}

theorem window_start (capacity maxHops : Nat) :
    Window ⟨.withMaxHops capacity maxHops,[],[]⟩ 0 where
  lower := Nat.le_refl _
  next := rfl
  seqs := rfl
  payloads := rfl
  hops := List.Pairwise.nil
  hops_le := by simp [RingBufferReplay.withMaxHops]
  returns_eq := by simp [RingBufferReplay.withMaxHops]
  returns_le := fun _ => Nat.zero_le _
  unsent := fun _ _ => rfl
  room := Nat.zero_le _

theorem Window.length (h : Window s lo) : s.rb.frames.length=s.sent.length-lo := by
  have hlen := congrArg List.length h.seqs
  rwa [length_map,length_range'] at hlen

theorem Window.nodup (h : Window s lo) : (s.rb.frames.map Frame.seq).Nodup := by
  rw [h.seqs]
  exact nodup_range'

theorem Window.ascending (h : Window s lo) :
    s.rb.frames.Pairwise fun f g => f.seq < g.seq := by
  have hsorted := pairwise_lt_range' (s := lo) (n := s.sent.length-lo)
  rw [← h.seqs] at hsorted
  exact pairwise_map.mp hsorted

theorem Window.drop (h : Window s lo) {k : Nat} (hk : k ≤ s.rb.frames.length) (dropped : Nat) :
    Window { s with rb := { s.rb with frames := s.rb.frames.drop k, droppedCount := dropped } }
      (lo+k) where
  lower := by
    have := h.lower
    rw [h.length] at hk
    simp only
    omega
  next := h.next
  seqs := by
    simp only [map_drop,h.seqs,drop_range',Nat.mul_one]
    rw [Nat.sub_sub]
  payloads := by simp only [map_drop,h.payloads,drop_drop]
  hops := h.hops.sublist (drop_sublist k _)
  hops_le := fun f hf => h.hops_le f (mem_of_mem_drop hf)
  returns_eq := fun f hf => h.returns_eq f (mem_of_mem_drop hf)
  returns_le := h.returns_le
  unsent := h.unsent
  room := by
    have := h.room
    simp only [length_drop]
    omega

/-- A retain that keeps whatever is newer than a frame it keeps moves the lower end. -/
theorem Window.filter (h : Window s lo) (p : Frame → Bool)
    (hp : s.rb.frames.Pairwise fun f g => p f=true → p g=true) :
    ∃ lo', Window { s with rb := { s.rb with frames := s.rb.frames.filter p } } lo' := by
  obtain ⟨k,hk,heq⟩ := exists_filter_eq_drop p hp
  rw [heq]
  exact ⟨lo+k,h.drop hk s.rb.droppedCount⟩

theorem Window.evict (h : Window s lo) (hcap : 0 < s.rb.capacity) :
    ∃ lo', Window { s with rb := s.rb.evict } lo' ∧
      s.rb.evict.frames.length < s.rb.evict.capacity := by
  rw [RingBufferReplay.evict]
  split_ifs with hfull
  · refine ⟨lo+1,h.drop (Nat.le_trans hcap hfull) _,?_⟩
    have := h.room
    simp only [length_drop]
    omega
  · exact ⟨lo,h,Nat.lt_of_not_le hfull⟩

theorem Window.append (h : Window s lo) (hroom : s.rb.frames.length < s.rb.capacity)
    (data : List UInt8) (now : Instant) :
    Window { s with
      rb := { s.rb with
        nextSeq := s.rb.nextSeq+1
        frames := s.rb.frames++[⟨s.rb.nextSeq,data,now,0⟩] }
      sent := s.sent++[(data, now)] } lo where
  lower := by
    have := h.lower
    simp only [length_append,length_singleton]
    omega
  next := by simp [h.next]
  seqs := by
    have hlen : s.sent.length+1-lo=s.sent.length-lo+1 := Nat.sub_add_comm h.lower
    have hlast : s.rb.nextSeq=lo+(s.sent.length-lo) := by
      rw [h.next,Nat.add_sub_cancel' h.lower]
    simp only [map_append,map_singleton,h.seqs,length_append,
      length_singleton,hlen,range'_1_concat,hlast]
  payloads := by
    simp only [map_append,h.payloads,map_singleton,
      drop_append_of_le_length h.lower]
  hops := by
    refine pairwise_append.mpr ⟨h.hops,pairwise_singleton _ _,?_⟩
    intro f _ g hg
    rw [mem_singleton.mp hg]
    exact Nat.zero_le _
  hops_le := by
    intro f hf
    rcases mem_append.mp hf with hf | hf
    · exact h.hops_le f hf
    · rw [mem_singleton.mp hf]
      exact Nat.zero_le _
  returns_eq := by
    intro f hf
    rcases mem_append.mp hf with hf | hf
    · exact h.returns_eq f hf
    · rw [mem_singleton.mp hf]
      exact h.unsent _ (Nat.le_of_eq h.next.symm)
  returns_le := h.returns_le
  unsent := by
    intro seq hseq
    rw [length_append] at hseq
    exact h.unsent seq (Nat.le_of_add_right_le hseq)
  room := by
    rw [length_append]
    exact hroom

theorem map_seq_hop (frames : List Frame) :
    (frames.map Frame.hop).map Frame.seq=frames.map Frame.seq := by
  rw [map_map]
  rfl

/-- Handing every buffered frame out once more is one hop and one return for each. -/
theorem Window.hop (h : Window s lo) (hlt : ∀ f∈s.rb.frames, f.hops < s.rb.maxHops)
    (replays : Nat) :
    Window { s with
      rb := { s.rb with frames := s.rb.frames.map Frame.hop, replayCount := replays }
      returned := s.returned++s.rb.frames.map Frame.hop } lo := by
  -- no frame is in the ring twice, so one replay returns it once
  have hreturns : ∀ seq, ((s.returned++s.rb.frames.map Frame.hop).map Frame.seq).count seq =
      s.returns seq+(s.rb.frames.map Frame.seq).count seq := by
    intro seq
    rw [map_append,count_append,map_seq_hop]
    rfl
  have hheld : ∀ f∈s.rb.frames, (s.rb.frames.map Frame.seq).count f.seq=1 := fun f hf =>
    count_eq_one_of_mem h.nodup (mem_map_of_mem hf)
  have hboth : ∀ f∈s.rb.frames,
      ((s.returned++s.rb.frames.map Frame.hop).map Frame.seq).count f.seq=f.hops+1 := by
    intro f hf
    rw [hreturns,hheld f hf,h.returns_eq f hf]
  exact {
    lower := h.lower
    next := h.next
    seqs := (map_seq_hop _).trans h.seqs
    payloads := by
      rw [← h.payloads,map_map]
      rfl
    hops := pairwise_map.mpr (h.hops.imp fun hle => Nat.succ_le_succ hle)
    hops_le := by
      intro g hg
      obtain ⟨f,hf,rfl⟩ := mem_map.mp hg
      exact hlt f hf
    returns_eq := by
      intro g hg
      obtain ⟨f,hf,rfl⟩ := mem_map.mp hg
      exact hboth f hf
    returns_le := by
      intro seq
      by_cases hmem : seq∈s.rb.frames.map Frame.seq
      · obtain ⟨f,hf,rfl⟩ := mem_map.mp hmem
        exact (hboth f hf).trans_le (hlt f hf)
      · refine (hreturns seq).trans_le ?_
        rw [count_eq_zero_of_not_mem hmem]
        exact h.returns_le seq
    unsent := by
      intro seq hseq
      refine (hreturns seq).trans ?_
      rw [h.unsent seq hseq,h.seqs]
      refine (Nat.zero_add _).trans (count_eq_zero_of_not_mem ?_)
      rw [mem_range'_1]
      have := h.lower
      simp only at hseq
      omega
    room := by
      rw [length_map]
      exact h.room }

theorem Window.replay (h : Window s lo) :
    ∃ lo', Window { s with
      rb := s.rb.replayAll.1, returned := s.returned++s.rb.replayAll.2 } lo' := by
  obtain ⟨lo',hkept⟩ := h.filter (fun f => f.hops < s.rb.maxHops) (by
    refine h.hops.imp fun hle hlt => ?_
    rw [decide_eq_true_eq] at hlt ⊢
    exact Nat.lt_of_le_of_lt hle hlt)
  refine ⟨lo',hkept.hop (fun f hf => ?_) (s.rb.replayCount+1)⟩
  exact of_decide_eq_true (mem_filter.mp hf).2

theorem Window.acked (h : Window s lo) (uptoSeq : Nat) :
    ∃ lo', Window { s with rb := (s.rb.ack uptoSeq).1 } lo' := by
  refine h.filter (fun f => uptoSeq < f.seq) (h.ascending.imp fun hlt hle => ?_)
  rw [decide_eq_true_eq] at hle ⊢
  exact Nat.lt_trans hle hlt

theorem Window.step (h : Window s lo) (hcap : 0 < s.rb.capacity) (call : Call) :
    ∃ lo', Window (s.next call) lo' := by
  cases call with
  | push data now =>
    obtain ⟨lo',hroom,hlt⟩ := h.evict hcap
    exact ⟨lo',hroom.append hlt data now⟩
  | ack uptoSeq => exact h.acked uptoSeq
  | replayAll => exact h.replay
  | onDrop => exact h.replay
  | onLossSpike lossRate =>
    rw [Session.next,RingBufferReplay.onLossSpike]
    split_ifs with hspike
    · exact h.replay
    · exact ⟨lo,by simpa using h⟩
end

theorem evict_limits (rb : RingBufferReplay) :
    rb.evict.capacity=rb.capacity ∧ rb.evict.maxHops=rb.maxHops := by
  rw [RingBufferReplay.evict]
  split_ifs <;> exact ⟨rfl,rfl⟩

theorem next_limits (s : Session) (call : Call) :
    (s.next call).rb.capacity=s.rb.capacity ∧ (s.next call).rb.maxHops=s.rb.maxHops := by
  cases call with
  | push data now => exact evict_limits s.rb
  | onLossSpike lossRate =>
    rw [Session.next,RingBufferReplay.onLossSpike]
    split_ifs <;> exact ⟨rfl,rfl⟩
  | _ => exact ⟨rfl,rfl⟩

/-- A ring made with these limits is a window of its session. -/
structure Within (capacity maxHops : Nat) (s : Session) : Prop where
  window : ∃ lo, Window s lo
  capacity_eq : s.rb.capacity=max capacity 1
  maxHops_eq : s.rb.maxHops=maxHops

theorem within_session (capacity maxHops : Nat) (calls : List Call) :
    Within capacity maxHops (session capacity maxHops calls) := by
  have hstart : Within capacity maxHops ⟨.withMaxHops capacity maxHops,[],[]⟩ :=
    ⟨⟨0,window_start capacity maxHops⟩,rfl,rfl⟩
  refine (run_foldl Session.next calls _).invariant hstart ?_
  rintro s call t ⟨⟨lo,h⟩,hcap,hmax⟩ rfl
  obtain ⟨hcap',hmax'⟩ := next_limits s call
  exact ⟨h.step (by omega) call,hcap'.trans hcap,hmax'.trans hmax⟩

/-- After any calls the ring holds the frames lo, lo + 1, … up to the last one pushed, each
as it was pushed, no frame hopped more often than an older one, within the capacity; and no
frame was handed out for replay more often than the cap. -/
theorem ring_contiguous (capacity maxHops : Nat) (calls : List Call) :
    let s := session capacity maxHops calls
    (∃ lo ≤ s.rb.nextSeq,
      s.rb.frames.map Frame.seq=List.range' lo (s.rb.nextSeq-lo) ∧
      s.rb.frames.map (fun f => (f.data, f.sentAt))=s.sent.drop lo) ∧
    s.rb.frames.Pairwise (fun f g => f.seq < g.seq ∧ g.hops ≤ f.hops) ∧
    s.rb.frames.length ≤ max capacity 1 ∧
    ∀ seq, s.returns seq ≤ maxHops := by
  intro s
  obtain ⟨⟨lo,h⟩,hcap,hmax⟩ := within_session capacity maxHops calls
  refine ⟨⟨lo,?_,?_,h.payloads⟩,h.ascending.and h.hops,?_,?_⟩
  · exact h.lower.trans_eq h.next.symm
  · rw [h.next]
    exact h.seqs
  · exact h.room.trans_eq hcap
  · intro seq
    exact (h.returns_le seq).trans_eq hmax

end AetherX.BufferReplay
