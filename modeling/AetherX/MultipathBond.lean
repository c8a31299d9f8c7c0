import Mathlib.Data.List.Count
import Mathlib.Data.List.Rotate
import AetherX.CheckedWord
import AetherX.Multipath

/-! A bond of connected transports and the weighted round robin over it. The schedule names a
member as often as its weight says, and a call takes the entry at the value of the cursor that it
drew. The draw is the only step of a call that others can see. -/
namespace AetherX.Multipath
open List
open CheckedWord (Target)
open Machine (Ticketed update_eq_iff)
variable {target : Target}

section
variable {α : Type*}

/- What a list that is read round and round shows from a position on, once around. -/
def window (l : List α) (start : Nat) : List (Option α) :=
  (range l.length).map fun j => l[(start+j)%l.length]?

theorem window_eq_rotate (l : List α) (start : Nat) :
    window l start=(l.rotate start).map some := by
  refine ext_getElem (by simp [window]) fun j hj _ => ?_
  have hlt : j < l.length := by simpa [window] using hj
  have hin : (j+start)%l.length < l.length := Nat.mod_lt _ (Nat.zero_lt_of_lt hlt)
  simp [window,getElem_rotate,Nat.add_comm start j,getElem?_eq_getElem hin]

theorem count_window [DecidableEq α] (l : List α) (start : Nat) (a : α) :
    (window l start).count (some a)=l.count a := by
  rw [window_eq_rotate,count_map_of_injective _ _ (Option.some_injective α)]
  exact (rotate_perm l start).count_eq a
end

/- Every index as often as its weight. -/
def scheduleFor (weights : List Nat) : List Nat :=
  weights.zipIdx.flatMap fun (w, i) => replicate w i

theorem scheduleFor_append (weights : List Nat) (w : Nat) :
    scheduleFor (weights++[w])=scheduleFor weights++replicate w weights.length := by
  simp [scheduleFor,zipIdx_append]

theorem length_scheduleFor (weights : List Nat) : (scheduleFor weights).length=weights.sum := by
  induction weights using reverseRecOn with
  | nil => rfl
  | append_singleton weights w ih => simp [scheduleFor_append,ih]

theorem count_scheduleFor (weights : List Nat) (i : Nat) :
    (scheduleFor weights).count i=weights.getD i 0 := by
  induction weights using reverseRecOn with
  | nil => rfl
  | append_singleton weights w ih =>
    rw [scheduleFor_append,count_append,ih,count_replicate]
    rcases Nat.lt_trichotomy i weights.length with hlt | rfl | hgt
    · simp [getElem?_append_left hlt,Nat.ne_of_gt hlt]
    · simp
    · have hlast : (weights++[w]).length ≤ i := by simpa [Nat.succ_le_iff] using hgt
      simp [getElem?_eq_none hlast,getElem?_eq_none hgt.le,Nat.ne_of_lt hgt]

structure MultipathBond (target : Target) where
  members : List Transport
  weights : List Nat
  schedule : List Nat
  cursor : BitVec target.bits
  aligned : weights.length=members.length
  scheduled : schedule=scheduleFor weights

def weightForRtt (rttMs : UInt32) : Nat :=
  let rtt := max rttMs.toNat 1
  max 1 (min (500/rtt) 10)

/- A transport with what it answers when it is asked whether it is available. -/
structure Candidate where
  transport : Transport
  isAvailable : Bool

namespace MultipathBond
def empty : MultipathBond target := ⟨[],[],[],0,rfl,rfl⟩

def push (b : MultipathBond target) (t : Transport) (w : Nat) : MultipathBond target where
  members := b.members++[t]
  weights := b.weights++[w]
  schedule := b.schedule++replicate w b.members.length
  cursor := b.cursor
  aligned := by simp [b.aligned]
  scheduled := by rw [scheduleFor_append,← b.scheduled,b.aligned]

/- No bond comes of a connect call that panics or never returns. -/
def gather (b : MultipathBond target) : List Candidate → Option (MultipathBond target)
  | [] => some b
  | c::candidates =>
    if !c.isAvailable then gather b candidates
    else
      match c.transport.connect with
      | .returns _ (.ok connection) =>
        gather (b.push c.transport (weightForRtt connection.rttMs)) candidates
      | .returns _ (.error _) => gather b candidates
      | .panics _ | .hangs => none

def fromAvailable (candidates : List Candidate) : Option (MultipathBond target) :=
  gather empty candidates

def memberAt (b : MultipathBond target) (value : BitVec target.bits) : Option Nat :=
  b.schedule[value.toNat%b.schedule.length]?

end MultipathBond

/- What a call of next has drawn: the value, and the number of the draw, which no step reads. -/
structure Drawn (target : Target) where
  draw : Nat
  value : BitVec target.bits

structure Returned (target : Target) extends Drawn target where
  member : Option Nat
  transport : Option Transport

/- A bond in use by any number of threads, with what their calls have returned. -/
structure Calls (target : Target) (τ : Type*) where
  bond : MultipathBond target
  task : τ → Option (Drawn target)
  draws : Nat
  returned : List (Returned target)

inductive Section (τ : Type*) where
  | draw (t : τ)
  | finish (t : τ)

section
variable {τ : Type*} [DecidableEq τ]

namespace Calls
def step (s : Calls target τ) : Section τ → Calls target τ
  | .draw t =>
    match s.task t with
    | none =>
      if s.bond.schedule.isEmpty then s
      else
        { s with
          bond := { s.bond with cursor := s.bond.cursor+1 }
          task := Function.update s.task t (some ⟨s.draws,s.bond.cursor⟩)
          draws := s.draws+1 }
    | some _ => s
  | .finish t =>
    match s.task t with
    | some drawn =>
      let member := s.bond.memberAt drawn.value
      { s with
        task := Function.update s.task t none
        returned := s.returned ++
          [⟨drawn,member,member.bind fun i => s.bond.members[i]?⟩] }
    | none => s

def start (b : MultipathBond target) : Calls target τ := ⟨b,fun _ => none,0,[]⟩

def run (b : MultipathBond target) (sections : List (Section τ)) : Calls target τ :=
  sections.foldl step (start b)

end Calls

/-- Draws are numbered in their order, no two calls share one, and what a call returns is what its
value of the cursor stands for. -/
structure Numbered (b : MultipathBond target) (s : Calls target τ) : Prop where
  members : s.bond.members=b.members
  schedule : s.bond.schedule=b.schedule
  cursor : s.bond.cursor=b.cursor+BitVec.ofNat target.bits s.draws
  held : Ticketed Drawn.draw s.task s.draws
  pending : ∀ t d, s.task t=some d → d.value=b.cursor+BitVec.ofNat target.bits d.draw ∧
    ∀ r∈s.returned, r.draw≠d.draw
  done : ∀ r∈s.returned, r.draw < s.draws ∧
    r.value=b.cursor+BitVec.ofNat target.bits r.draw ∧ r.member=b.memberAt r.value ∧
    r.transport=r.member.bind fun i => b.members[i]?
  once : (s.returned.map (·.draw)).Nodup

omit [DecidableEq τ] in
theorem numbered_start (b : MultipathBond target) : Numbered b (Calls.start b : Calls target τ) where
  members := rfl
  schedule := rfl
  cursor := by simp [Calls.start]
  held := ⟨by simp [Calls.start],by simp [Calls.start]⟩
  pending := by simp [Calls.start]
  done := by simp [Calls.start]
  once := .nil

section
variable {b : MultipathBond target} {s : Calls target τ}

theorem Numbered.draw (h : Numbered b s) (t : τ) : Numbered b (s.step (.draw t)) := by
  rw [Calls.step]
  split
  next hidle =>
    split_ifs
    · exact h
    · refine ⟨h.members,h.schedule,?_,h.held.draw rfl t,fun u d hu => ?_,fun r hr => ?_,h.once⟩
      · change s.bond.cursor+1=b.cursor+BitVec.ofNat target.bits (s.draws+1)
        rw [h.cursor,BitVec.ofNat_add,BitVec.add_assoc]
        rfl
      · rcases update_eq_iff.mp hu with ⟨-,hnew⟩ | ⟨-,hold⟩
        · obtain rfl := Option.some.inj hnew
          exact ⟨h.cursor,fun r hr => Nat.ne_of_lt (h.done r hr).1⟩
        · exact h.pending u d hold
      · obtain ⟨hlt,hrest⟩ := h.done r hr
        exact ⟨Nat.lt_succ_of_lt hlt,hrest⟩
  next => exact h

theorem Numbered.finish (h : Numbered b s) (t : τ) : Numbered b (s.step (.finish t)) := by
  rw [Calls.step]
  split
  next drawn htask =>
    obtain ⟨hvalue,hnot⟩ := h.pending t drawn htask
    have hmember : s.bond.memberAt drawn.value=b.memberAt drawn.value := by
      rw [MultipathBond.memberAt,h.schedule]
      rfl
    refine ⟨h.members,h.schedule,h.cursor,h.held.drop t,fun u d hu => ?_,fun r hr => ?_,?_⟩
    · rcases update_eq_iff.mp hu with ⟨-,hnone⟩ | ⟨hut,hold⟩
      · cases hnone
      obtain ⟨hvalue',hnot'⟩ := h.pending u d hold
      refine ⟨hvalue',fun r hr => ?_⟩
      rcases mem_append.mp hr with hbefore | hnew
      · exact hnot' r hbefore
      · rw [mem_singleton.mp hnew]
        exact fun heq => hut (h.held.apart u t d drawn hold htask heq.symm)
    · rcases mem_append.mp hr with hbefore | hnew
      · exact h.done r hbefore
      · rw [mem_singleton.mp hnew,hmember,h.members]
        exact ⟨h.held.drawn t drawn htask,hvalue,rfl,rfl⟩
    · have hfresh : drawn.draw∉s.returned.map (·.draw) := by simpa using hnot
      simpa using h.once.concat hfresh
  next => exact h
end

theorem numbered_run (b : MultipathBond target) (sections : List (Section τ)) :
    Numbered b (Calls.run b sections) := by
  refine foldlRecOn sections Calls.step (numbered_start b) fun s hs section_ _ => ?_
  cases section_ with
  | draw u => exact hs.draw u
  | finish u => exact hs.finish u

def Calls.returnedIn (s : Calls target τ) (first count : Nat) : List (Returned target) :=
  s.returned.filter fun r => first ≤ r.draw ∧ r.draw < first+count

omit [DecidableEq τ] in
/-- The calls of a window of draws return what the schedule shows once around. -/
theorem members_perm_window {b : MultipathBond target} {s : Calls target τ} (h : Numbered b s)
    {first value : Nat} (hwindow : ∀ j < b.weights.sum, ∃ r∈s.returned,
      r.draw=first+j ∧ r.value.toNat=value+j) :
    ((s.returnedIn first b.weights.sum).map Returned.member).Perm (window b.schedule value) := by
  have hlength : b.schedule.length=b.weights.sum := by
    rw [b.scheduled,length_scheduleFor]
  have hdraws : ((s.returnedIn first b.weights.sum).map (·.draw)).Perm
      ((range b.weights.sum).map (first + ·)) := by
    refine (perm_ext_iff_of_nodup (h.once.sublist (filter_sublist.map _))
      (nodup_range.map fun _ _ => Nat.add_left_cancel)).mpr fun draw => ?_
    simp only [mem_map,mem_filter,mem_range,decide_eq_true_eq]
    constructor
    · rintro ⟨r,⟨-,hfirst,hlast⟩,rfl⟩
      exact ⟨r.draw-first,by omega,by omega⟩
    · rintro ⟨j,hj,rfl⟩
      obtain ⟨r,hr,hdraw,-⟩ := hwindow j hj
      exact ⟨r,⟨hr,by omega,by omega⟩,hdraw⟩
  -- no other call has the draw, so the value is the one that the window names
  have hmember : ∀ r∈s.returnedIn first b.weights.sum,
      r.member=b.schedule[(value+(r.draw-first))%b.schedule.length]? := by
    intro r hr
    obtain ⟨hmem,hin⟩ := mem_filter.mp hr
    rw [decide_eq_true_eq] at hin
    obtain ⟨r',hr',hdraw,hvalue⟩ := hwindow (r.draw-first) (by omega)
    have hsame : r'=r := inj_on_of_nodup_map h.once hr' hmem (by omega)
    rw [hsame] at hvalue
    rw [(h.done r hmem).2.2.1,MultipathBond.memberAt,hvalue]
  have hmap : (s.returnedIn first b.weights.sum).map Returned.member =
      ((s.returnedIn first b.weights.sum).map (·.draw)).map fun draw =>
        b.schedule[(value+(draw-first))%b.schedule.length]? := by
    rw [map_map]
    exact map_congr_left hmember
  rw [hmap]
  refine (hdraws.map _).trans (.of_eq ?_)
  rw [map_map,window,hlength]
  exact map_congr_left fun j _ => by simp

/-- Whatever the interleaving, the calls that drew a full round of consecutive values of the cursor
have returned each member as often as its weight says. -/
theorem bond_weighted_fair (b : MultipathBond target) (sections : List (Section τ))
    (first value : Nat) (hwindow : ∀ j < b.weights.sum, ∃ r∈(Calls.run b sections).returned,
      r.draw=first+j ∧ r.value.toNat=value+j) (i : Nat) (hi : i < b.members.length) :
    ((Calls.run b sections).returnedIn first b.weights.sum).countP
        (fun r => r.member=some i)=b.weights.getD i 0 ∧
      ∀ r∈(Calls.run b sections).returned, r.member=some i →
        r.transport=some b.members[i] := by
  have h := numbered_run b sections
  constructor
  · calc ((Calls.run b sections).returnedIn first b.weights.sum).countP (fun r => r.member=some i)
        = (((Calls.run b sections).returnedIn first b.weights.sum).map Returned.member).count
            (some i) := by
          rw [count,countP_map]
          exact countP_congr fun r _ => by simp
      _=(window b.schedule value).count (some i) := (members_perm_window h hwindow).count_eq _
      _=b.weights.getD i 0 := by rw [count_window,b.scheduled,count_scheduleFor]
  · intro r hr hmember
    rw [(h.done r hr).2.2.2,hmember]
    exact getElem?_eq_getElem hi

/- Two members, of which the faster one is used twice as often, and three calls by two threads
   that return out of order. -/
def torAndDns : MultipathBond .bits64 :=
  (MultipathBond.empty.push (answering "tor" 0 true 250) (weightForRtt 250)).push
    (answering "dns" 0 true 500) (weightForRtt 500)

def threeCalls : List (Section Bool) :=
  [.draw true,.draw false,.finish false,.draw false,.finish false,.finish true]

theorem bond_weighted_fair_out_of_order :
    MultipathBond.fromAvailable
        [⟨answering "tor" 0 true 250,true⟩,⟨answering "dns" 0 true 500,true⟩] =
      some torAndDns ∧
    (Calls.run torAndDns threeCalls).returned.map (·.draw)=[1,2,0] ∧
    ((Calls.run torAndDns threeCalls).returnedIn 0 torAndDns.weights.sum).countP
      (fun r => r.member=some 0)=2 := by
  refine ⟨rfl,by decide +kernel,?_⟩
  exact (bond_weighted_fair torAndDns threeCalls 0 0 (by decide +kernel) 0 (by decide +kernel)).1
end
end AetherX.Multipath
