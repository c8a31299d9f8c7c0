import AetherX.Supervisor

/-! The healer of the control plane: an alert leads to an action on its node unless the node is
cooling down. The check, the call of the API and the update of the cooldown are steps of their own. -/
namespace AetherX.NorthflankHealer
open Function Machine
open Supervisor (fromSecs)
variable {τ : Type*}

def cooldownDur : Nat := fromSecs (5*60)

structure TelemetryAlert where
  nodeId : String
  dropRate : Float
  rstCount : Int
  rttMs : UInt16

inductive ActionType where
  | redeploy
  | portRotation
  | ipMutation

structure HealerDecision where
  action : ActionType
  nodeId : String
  timestamp : Nat

def decisionFor (alert : TelemetryAlert) (now : Nat) : HealerDecision where
  action :=
    if alert.dropRate > 0.5 || alert.rstCount > 20 then .ipMutation
    else if alert.dropRate > 0.3 || alert.rstCount > 10 then .redeploy
    else if alert.rttMs > 500 then .portRotation
    else .redeploy
  nodeId := alert.nodeId
  timestamp := now

/- Where a call of HandleAlert is. The action starts when the decision is made. -/
inductive Task where
  | idle
  | checking (alert : TelemetryAlert)
  | deciding (alert : TelemetryAlert)
  | acting (decision : HealerDecision)
  | updating (decision : HealerDecision)

/- The node of a call that has passed its check. -/
def Task.past : Task → Option String
  | .idle | .checking _ => none
  | .deciding alert => some alert.nodeId
  | .acting d | .updating d => some d.nodeId

/- The decisions are those whose action has succeeded. -/
structure Healer (τ : Type*) where
  now : Nat
  cooldown : String → Option Nat
  decisions : List HealerDecision
  task : τ → Task

inductive Event (τ : Type*) where
  | tick (d : Nat)
  | call (t : τ) (alert : TelemetryAlert)
  | resume (t : τ) (ok : Bool)

namespace Healer
def start (now : Nat) : Healer τ := ⟨now,fun _ => none,[],fun _ => .idle⟩

def coolingDown (h : Healer τ) (nodeId : String) : Bool :=
  (h.cooldown nodeId).any fun last => h.now-last < cooldownDur

variable [DecidableEq τ]

def become (h : Healer τ) (t : τ) (task : Task) : Healer τ := { h with task := update h.task t task }

def handle (h : Healer τ) : Event τ → Healer τ
  | .tick d => { h with now := h.now+d }
  | .call t alert => match h.task t with
    | .idle => h.become t (.checking alert)
    | _ => h
  | .resume t ok => match h.task t with
    | .idle => h
    | .checking alert => h.become t (if h.coolingDown alert.nodeId then .idle else .deciding alert)
    | .deciding alert => h.become t (.acting (decisionFor alert h.now))
    | .acting d => h.become t (if ok then .updating d else .idle)
    | .updating d =>
      { h with
        decisions := h.decisions++[d]
        cooldown := update h.cooldown d.nodeId (some h.now) }.become t .idle

/- A call passes its check only while no other call on the node is past its own. -/
def Orderly (h : Healer τ) : Event τ → Prop
  | .resume t _ => match h.task t with
    | .checking alert => h.coolingDown alert.nodeId=false → ∀ u, (h.task u).past≠some alert.nodeId
    | _ => True
  | _ => True

end Healer

def Apart (a b : HealerDecision) : Prop :=
  a.nodeId=b.nodeId → a.timestamp+cooldownDur ≤ b.timestamp ∨ b.timestamp+cooldownDur ≤ a.timestamp

section
variable {h : Healer τ} {t : τ} {task : Task} {d : HealerDecision}

/- The actions on a node have started long enough before an instant. -/
def Clear (h : Healer τ) (nodeId : String) (since : Nat) : Prop :=
  ∀ d∈h.decisions, d.nodeId=nodeId → d.timestamp+cooldownDur ≤ since

def Fits (h : Healer τ) : Task → Prop
  | .idle | .checking _ => True
  | .deciding alert => Clear h alert.nodeId h.now
  | .acting d | .updating d => Clear h d.nodeId d.timestamp ∧ d.timestamp ≤ h.now

structure Inv (h : Healer τ) : Prop where
  apart : h.decisions.Pairwise Apart
  alone : Exclusive Task.past h.task
  fits : ∀ t, Fits h (h.task t)
  cooled : ∀ d∈h.decisions, ∃ last, h.cooldown d.nodeId=some last ∧ d.timestamp ≤ last ∧ last ≤ h.now

theorem Inv.clear (hi : Inv h) {id : String} (hcool : h.coolingDown id=false) : Clear h id h.now := by
  rintro d hd rfl
  obtain ⟨last,hlast,hle,-⟩ := hi.cooled d hd
  rw [Healer.coolingDown,hlast,Option.any_some,decide_eq_false_iff_not] at hcool
  have : 0 < cooldownDur := by decide
  omega

/-- What a call has to know stands while time goes on, and while actions end on other nodes. -/
theorem Fits.mono {h' : Healer τ} (hf : Fits h task) (hnow : h.now ≤ h'.now)
    (hnew : ∀ d∈h'.decisions, task.past=some d.nodeId → d∈h.decisions) : Fits h' task := by
  cases task with
  | idle | checking => trivial
  | deciding alert =>
    exact fun d hd hid => Nat.le_trans (hf d (hnew d hd (congrArg some hid.symm)) hid) hnow
  | acting d' | updating d' =>
    exact ⟨fun d hd hid => hf.1 d (hnew d hd (congrArg some hid.symm)) hid,Nat.le_trans hf.2 hnow⟩

variable [DecidableEq τ]

theorem Inv.become (hi : Inv h) (hfits : Fits h task)
    (hpast : ∀ id, task.past=some id → ∀ u, (h.task u).past=some id → u=t) :
    Inv (h.become t task) :=
  ⟨hi.apart,hi.alone.update hpast,
    (forall_update_iff h.task fun _ => Fits h).mpr ⟨hfits,fun u _ => hi.fits u⟩,hi.cooled⟩

theorem Inv.update (hi : Inv h) (ht : h.task t = .updating d) :
    Inv ({ h with decisions := h.decisions++[d], cooldown := update h.cooldown d.nodeId (some h.now) }.become
      t .idle) := by
  have hmine : (h.task t).past=some d.nodeId := by rw [ht]; rfl
  obtain ⟨hclear,hnow⟩ : Fits h (.updating d) := ht ▸ hi.fits t
  refine ⟨?_,hi.alone.update nofun,(forall_update_iff h.task fun _ => Fits _).mpr ⟨trivial,fun u hut => ?_⟩,
    fun d' hd' => ?_⟩
  · refine List.pairwise_append.mpr ⟨hi.apart,List.pairwise_singleton _ _,fun a ha b hb hid => ?_⟩
    obtain rfl := List.mem_singleton.mp hb
    exact .inl (hclear a ha hid)
  · -- The other calls that are past their check are on other nodes.
    refine (hi.fits u).mono (Nat.le_refl _) fun d' hd' hid => ?_
    rcases List.mem_append.mp hd' with hold | hnew
    · exact hold
    · rw [List.mem_singleton.mp hnew] at hid
      exact absurd (hi.alone u t _ hid hmine) hut
  · by_cases hid : d'.nodeId=d.nodeId
    · refine ⟨h.now,(congrArg _ hid).trans (update_self ..),?_,Nat.le_refl _⟩
      rcases List.mem_append.mp hd' with hold | hnew
      · obtain ⟨last,-,hle,hlast⟩ := hi.cooled d' hold
        exact Nat.le_trans hle hlast
      · rw [List.mem_singleton.mp hnew]
        exact hnow
    · have hold := (List.mem_append.mp hd').resolve_right fun hnew => hid (by rw [List.mem_singleton.mp hnew])
      obtain ⟨last,hlast,hle⟩ := hi.cooled d' hold
      exact ⟨last,(update_of_ne hid _ _).trans hlast,hle⟩

theorem Inv.handle (hi : Inv h) {e : Event τ} (hok : h.Orderly e) : Inv (h.handle e) := by
  have hstay : ∀ {t} {task : Task}, (h.task t).past=task.past → ∀ id, task.past=some id →
      ∀ u, (h.task u).past=some id → u=t :=
    fun heq id hid u hu => hi.alone u _ id hu (heq.trans hid)
  cases e with
  | tick d =>
    refine ⟨hi.apart,hi.alone,fun t => (hi.fits t).mono (Nat.le_add_right ..) fun d hd _ => hd,
      fun d' hd' => ?_⟩
    obtain ⟨last,hlast,hle,hnow⟩ := hi.cooled d' hd'
    exact ⟨last,hlast,hle,Nat.le_add_right_of_le hnow⟩
  | call t alert =>
    rw [Healer.handle]
    split
    · exact hi.become trivial nofun
    · exact hi
  | resume t ok =>
    have hfits := hi.fits t
    rw [Healer.handle]
    rw [Healer.Orderly] at hok
    split <;> rename_i ht
    · exact hi
    · simp only [ht] at hok
      split_ifs with hcool
      · exact hi.become trivial nofun
      · rw [Bool.not_eq_true] at hcool
        refine hi.become (hi.clear hcool) ?_
        rintro _ ⟨⟩ u hu
        exact absurd hu (hok hcool u)
    · rw [ht] at hfits
      exact hi.become ⟨hfits,Nat.le_refl _⟩ (hstay (by rw [ht]; rfl))
    · rw [ht] at hfits
      split
      · exact hi.become hfits (hstay (by rw [ht]; rfl))
      · exact hi.become trivial nofun
    · exact hi.update ht
end

def drops : TelemetryAlert := ⟨"n1",0,21,0⟩

end AetherX.NorthflankHealer
