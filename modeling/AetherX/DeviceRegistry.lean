import AetherX.Machine
import Mathlib.Data.Finset.Card

/-! The registry of the devices that are active under each subscription, with a limit that
every registration brings along. What it is for is the set of active devices of each
subscription; what it stores is a map in which a subscription may also have no entry. -/
namespace AetherX.DeviceRegistry
open Function

inductive AntiForgeryError where
  | deviceLimit
  deriving DecidableEq

/- The hash map as the function it stands for, with an entry or none for each subscription. -/
structure Registry where
  active : String → Option (Finset String)

namespace Registry
def new : Registry := ⟨fun _ => none⟩

def set (reg : Registry) (subscriptionId : String) (entry : Option (Finset String)) : Registry :=
  ⟨update reg.active subscriptionId entry⟩

/- The entry is created before the limit is compared. -/
def register (reg : Registry) (subscriptionId fingerprint : String) (maxConcurrent : Nat) :
    Registry × Except AntiForgeryError Unit :=
  let devices := (reg.active subscriptionId).getD ∅
  let reg := reg.set subscriptionId (some devices)
  if fingerprint∈devices then (reg, .ok ())
  else if maxConcurrent ≤ devices.card then (reg, .error .deviceLimit)
  else (reg.set subscriptionId (some (insert fingerprint devices)), .ok ())

def release (reg : Registry) (subscriptionId fingerprint : String) : Registry :=
  match reg.active subscriptionId with
  | some devices =>
    let devices := devices.erase fingerprint
    if devices = ∅ then reg.set subscriptionId none
    else reg.set subscriptionId (some devices)
  | none => reg

def activeCount (reg : Registry) (subscriptionId : String) : Nat :=
  ((reg.active subscriptionId).map Finset.card).getD 0

end Registry

inductive Call where
  | register (subscriptionId fingerprint : String) (maxConcurrent : Nat)
  | release (subscriptionId fingerprint : String)

def next (reg : Registry) : Call → Registry
  | .register subscriptionId fingerprint maxConcurrent =>
    (reg.register subscriptionId fingerprint maxConcurrent).1
  | .release subscriptionId fingerprint => reg.release subscriptionId fingerprint

def history (calls : List Call) : Registry := calls.foldl next .new

section
variable (reg : Registry) (sub fp : String) (limit : Nat)

/- The devices of a subscription; no entry and an empty one are the same to it. -/
def Registry.devices : Finset String := (reg.active sub).getD ∅

/- A registration is admitted for a device that is active already, and below the limit. -/
def Registry.Admits : Prop := fp∈reg.devices sub ∨ (reg.devices sub).card < limit

instance : Decidable (reg.Admits sub fp limit) :=
  inferInstanceAs (Decidable (fp∈reg.devices sub ∨ (reg.devices sub).card < limit))

/- The devices of the subscription after a registration. -/
def Registry.registered : Finset String :=
  if reg.Admits sub fp limit then insert fp (reg.devices sub) else reg.devices sub

theorem set_self (entry : Option (Finset String)) : (reg.set sub entry).active sub=entry :=
  update_self _ _ _

theorem set_of_ne {other : String} (h : other≠sub) (entry : Option (Finset String)) :
    (reg.set sub entry).active other=reg.active other :=
  update_of_ne h _ _

theorem set_active {entry : Option (Finset String)} (h : entry=reg.active sub) :
    reg.set sub entry=reg := by
  rw [Registry.set,h,update_eq_self]

theorem set_set (entry entry' : Option (Finset String)) :
    (reg.set sub entry).set sub entry'=reg.set sub entry' := by
  rw [Registry.set,Registry.set,update_idem,Registry.set]

theorem activeCount_eq : reg.activeCount sub=(reg.devices sub).card := by
  rw [Registry.activeCount,Registry.devices]
  cases reg.active sub <;> rfl

theorem register_eq : reg.register sub fp limit =
    (reg.set sub (some (reg.registered sub fp limit)),
      if reg.Admits sub fp limit then .ok () else .error .deviceLimit) := by
  have hdevices : (reg.active sub).getD ∅ = reg.devices sub := rfl
  simp only [Registry.register,Registry.registered,hdevices]
  by_cases hmem : fp∈reg.devices sub
  · have hadmits : reg.Admits sub fp limit := .inl hmem
    rw [if_pos hmem,if_pos hadmits,if_pos hadmits,Finset.insert_eq_of_mem hmem]
  rw [if_neg hmem]
  by_cases hfull : limit≤(reg.devices sub).card
  · have hrefused : ¬ reg.Admits sub fp limit := not_or.mpr ⟨hmem,not_lt.mpr hfull⟩
    rw [if_pos hfull,if_neg hrefused,if_neg hrefused]
  · have hadmits : reg.Admits sub fp limit := .inr (not_le.mp hfull)
    rw [if_neg hfull,if_pos hadmits,if_pos hadmits,set_set]

theorem devices_set (entry : Option (Finset String)) :
    (reg.set sub entry).devices=update reg.devices sub (entry.getD ∅) := by
  funext other
  by_cases hsub : other=sub
  · rw [hsub,Registry.devices,set_self,update_self]
  · rw [Registry.devices,set_of_ne reg sub hsub,update_of_ne hsub,Registry.devices]

/-- To the devices, a registration that is not admitted changes nothing. -/
theorem devices_register : (reg.register sub fp limit).1.devices =
    update reg.devices sub (reg.registered sub fp limit) := by
  rw [register_eq,devices_set,Option.getD_some]

theorem devices_release : (reg.release sub fp).devices =
    update reg.devices sub ((reg.devices sub).erase fp) := by
  cases hentry : reg.active sub with
  | none =>
    have hnone : reg.devices sub = ∅ := by rw [Registry.devices,hentry,Option.getD_none]
    rw [Registry.release,hentry,hnone,Finset.erase_empty,← hnone,update_eq_self]
  | some set =>
    have hset : reg.devices sub=set := by rw [Registry.devices,hentry,Option.getD_some]
    rw [Registry.release,hentry,hset]
    dsimp only
    split_ifs with hempty
    · rw [devices_set,hempty,Option.getD_none]
    · rw [devices_set,Option.getD_some]
end

def largestLimit (sub : String) : List Call → Nat
  | [] => 0
  | .register s _ limit::calls =>
    if s=sub then max limit (largestLimit sub calls) else largestLimit sub calls
  | .release _ _::calls => largestLimit sub calls

theorem largestLimit_append (sub : String) (calls calls' : List Call) :
    largestLimit sub (calls++calls')=max (largestLimit sub calls) (largestLimit sub calls') := by
  induction calls with
  | nil => rw [List.nil_append,largestLimit,Nat.zero_max]
  | cons call calls ih =>
    cases call with
    | register s f limit =>
      simp only [List.cons_append,largestLimit,ih]
      split_ifs
      · rw [max_assoc]
      · rfl
    | release s f => simpa only [List.cons_append,largestLimit] using ih

theorem card_registered_le (reg : Registry) (sub fp : String) (limit : Nat) :
    (reg.registered sub fp limit).card ≤ max (reg.devices sub).card limit := by
  rw [Registry.registered]
  split_ifs with hadmits
  · cases hadmits with
    | inl hmem =>
      rw [Finset.insert_eq_of_mem hmem]
      exact le_max_left _ _
    | inr hroom => exact (Finset.card_insert_le _ _).trans (le_max_of_le_right hroom)
  · exact le_max_left _ _

theorem card_devices_next_le (reg : Registry) (call : Call) (sub : String) :
    ((next reg call).devices sub).card ≤ max (reg.devices sub).card (largestLimit sub [call]) := by
  cases call with
  | register s fp limit =>
    rw [next,devices_register]
    by_cases hsub : sub=s
    · rw [hsub,update_self,largestLimit,if_pos rfl,largestLimit,Nat.max_zero]
      exact card_registered_le reg s fp limit
    · rw [update_of_ne hsub]
      exact le_max_left _ _
  | release s fp =>
    rw [next,devices_release]
    by_cases hsub : sub=s
    · rw [hsub,update_self]
      exact (Finset.card_erase_le).trans (le_max_left _ _)
    · rw [update_of_ne hsub]
      exact le_max_left _ _

theorem card_devices_history_le (calls : List Call) (sub : String) :
    ((history calls).devices sub).card ≤ largestLimit sub calls := by
  induction calls using List.reverseRecOn with
  | nil => exact le_rfl
  | append_singleton calls call ih =>
    have hnext : history (calls++[call])=next (history calls) call :=
      List.foldl_append
    rw [hnext,largestLimit_append]
    exact (card_devices_next_le _ call sub).trans (max_le_max_right _ ih)

section
/- No subscription is mapped to an empty set. -/
def Registry.NoEmpty (reg : Registry) : Prop := ∀ sub, reg.active sub≠some ∅

/- A call that returns the limit error does not change the registry. -/
def Registry.RefusalKeeps (reg : Registry) : Call → Prop
  | .register sub fp limit => (reg.register sub fp limit).2 = .error .deviceLimit →
      (reg.register sub fp limit).1=reg
  | .release _ _ => True

/- A limit of zero is only used for a subscription that has an active device. -/
def ZeroOnActive (reg : Registry) : Call → Prop
  | .register sub _ limit => limit=0 → 0 < reg.activeCount sub
  | .release _ _ => True

variable {reg : Registry}

theorem devices_eq_empty_iff (hreg : reg.NoEmpty) (sub : String) :
    reg.devices sub = ∅ ↔ reg.active sub=none := by
  rw [Registry.devices]
  cases hentry : reg.active sub with
  | none => simp
  | some set =>
    refine iff_of_false (fun hset => hreg sub ?_) (Option.some_ne_none set)
    rw [hentry,← hset,Option.getD_some]

theorem noEmpty_set (hreg : reg.NoEmpty) (sub : String) (entry : Option (Finset String)) :
    (reg.set sub entry).NoEmpty ↔ entry≠some ∅ := by
  constructor
  · intro h
    have hsub := h sub
    rwa [set_self] at hsub
  · intro hentry other
    by_cases hsub : other=sub
    · rwa [hsub,set_self]
    · rw [set_of_ne reg sub hsub]
      exact hreg other

theorem registered_eq_empty_iff (reg : Registry) (sub fp : String) (limit : Nat) :
    reg.registered sub fp limit = ∅ ↔ reg.devices sub = ∅ ∧ limit=0 := by
  rw [Registry.registered]
  split_ifs with hadmits
  · refine iff_of_false (Finset.insert_ne_empty _ _) fun h => ?_
    rw [Registry.Admits,h.1,h.2] at hadmits
    simp at hadmits
  · rw [Registry.Admits,not_or,not_lt] at hadmits
    refine ⟨fun h => ⟨h,?_⟩,And.left⟩
    rw [h,Finset.card_empty] at hadmits
    exact Nat.le_zero.mp hadmits.2

/-- The one step that makes an empty entry is a limit of zero without an active device. -/
theorem noEmpty_next_iff (hreg : reg.NoEmpty) (call : Call) :
    (next reg call).NoEmpty ↔ ZeroOnActive reg call := by
  cases call with
  | register sub fp limit =>
    rw [next,register_eq,noEmpty_set hreg,Ne,Option.some_inj,registered_eq_empty_iff,
      ZeroOnActive,activeCount_eq,Finset.card_pos,Finset.nonempty_iff_ne_empty]
    tauto
  | release sub fp =>
    refine iff_of_true ?_ trivial
    cases hentry : reg.active sub with
    | none => rwa [next,Registry.release,hentry]
    | some set =>
      rw [next,Registry.release,hentry]
      dsimp only
      split_ifs with hempty
      · rw [noEmpty_set hreg]
        exact Option.some_ne_none _ ∘ Eq.symm
      · rw [noEmpty_set hreg]
        exact fun h => hempty (Option.some_inj.mp h)

theorem refusalKeeps_of_zeroOnActive (hreg : reg.NoEmpty) {call : Call}
    (hzero : ZeroOnActive reg call) : reg.RefusalKeeps call := by
  cases call with
  | release sub fp => trivial
  | register sub fp limit =>
    intro hrefused
    rw [register_eq] at hrefused ⊢
    have hnot : ¬ reg.Admits sub fp limit := by
      intro hadmits
      rw [if_pos hadmits] at hrefused
      cases hrefused
    have hactive : reg.active sub≠none := by
      intro hnone
      rw [← devices_eq_empty_iff hreg] at hnone
      rw [ZeroOnActive,activeCount_eq,hnone,Finset.card_empty] at hzero
      rw [Registry.Admits,hnone,Finset.card_empty] at hnot
      exact hnot (.inr (Nat.pos_of_ne_zero fun h => absurd (hzero h) (lt_irrefl 0)))
    obtain ⟨set,hentry⟩ := Option.ne_none_iff_exists'.mp hactive
    have hset : some (reg.registered sub fp limit)=reg.active sub := by
      rw [Registry.registered,if_neg hnot,Registry.devices,hentry,Option.getD_some]
    exact set_active reg sub hset
end

/-- In every history a subscription holds no more devices than the largest limit used for it
and a device that is active is registered again without a change. The other half, that a
refusal leaves the registry as it was and that no entry is empty, holds exactly when every
limit of zero meets an active device: the entry is created before the limit is compared. -/
theorem registry_bounded_and_safe_iff (calls : List Call) :
    (∀ before after, calls=before++after → ∀ sub,
      (history before).activeCount sub ≤ largestLimit sub before ∧
      ∀ fp∈(history before).devices sub, ∀ limit,
        (history before).register sub fp limit=(history before, .ok ())) ∧
    ((∀ before call after, calls=before++call::after →
        (history before).RefusalKeeps call) ∧
      (∀ before after, calls=before++after → (history before).NoEmpty) ↔
      ∀ before call after, calls=before++call::after →
        ZeroOnActive (history before) call) := by
  constructor
  · intro before after _ sub
    refine ⟨?_,fun fp hfp limit => ?_⟩
    · rw [activeCount_eq]
      exact card_devices_history_le before sub
    · have hadmits : (history before).Admits sub fp limit := .inl hfp
      have hentry : some ((history before).registered sub fp limit)=(history before).active sub := by
        rw [Registry.registered,if_pos hadmits,Finset.insert_eq_of_mem hfp]
        rw [Registry.devices] at hfp ⊢
        cases hactive : (history before).active sub with
        | none => simp [hactive] at hfp
        | some set => rfl
      rw [register_eq,if_pos hadmits,set_active _ _ hentry]
  · have hnew : Registry.new.NoEmpty := fun sub => (Option.some_ne_none _).symm
    have hstep : ∀ reg call, True → Registry.NoEmpty reg →
        ((next reg call).NoEmpty ↔ ZeroOnActive reg call) :=
      fun reg call _ hreg => noEmpty_next_iff hreg call
    have hempty : (∀ before after, calls=before++after → (history before).NoEmpty) ↔
        ∀ before call after, calls=before++call::after → ZeroOnActive (history before) call :=
      Machine.foldl_along_iff (fun _ => True) (fun _ _ _ => trivial) hstep calls trivial hnew
    constructor
    · exact fun h => hempty.mp h.2
    · intro h
      refine ⟨fun before call after heq => ?_,hempty.mpr h⟩
      exact refusalKeeps_of_zeroOnActive (hempty.mpr h before (call::after) heq)
        (h before call after heq)

/- A limit of zero on a new registry is refused, and the refusal leaves an empty entry. -/
theorem refused_registration_leaves_entry :
    (¬ ∀ (calls before after : List Call) (call : Call), calls=before++call::after →
      (history before).RefusalKeeps call) ∧
    ¬ ∀ calls before after : List Call, calls=before++after → (history before).NoEmpty := by
  constructor
  · intro h
    have hkept := h [.register "s1" "fp-a" 0] [] [] (.register "s1" "fp-a" 0) rfl rfl
    exact absurd (congrArg (fun reg => reg.active "s1") hkept) (Option.some_ne_none ∅)
  · intro h
    exact h [.register "s1" "fp-a" 0] [.register "s1" "fp-a" 0] [] rfl "s1" rfl

end AetherX.DeviceRegistry
