import Mathlib.Logic.Function.Basic
import Mathlib.Tactic.Basic

/-! Runs of a labelled step relation and the rule that carries an invariant along
them. A condition on every step of a run is part of the relation that is run. -/
namespace AetherX.Machine
variable {σ α : Type*} {step : σ → α → σ → Prop}

inductive Run (step : σ → α → σ → Prop) : σ → List α → σ → Prop
  | refl (s : σ) : Run step s [] s
  | cons {s t u : σ} {a : α} {as : List α} : step s a t → Run step t as u → Run step s (a::as) u

variable {as : List α}

/-- What holds at the start and survives every step holds at the end. -/
theorem Run.invariant {s t : σ} (h : Run step s as t) {inv : σ → Prop} (hstart : inv s)
    (hstep : ∀ s a t, inv s → step s a t → inv t) : inv t := by
  induction h with
  | refl s => exact hstart
  | cons hs _ ih => exact ih (hstep _ _ _ hstart hs)

theorem Run.mono {step' : σ → α → σ → Prop} (hsub : ∀ s a t, step s a t → step' s a t) {s t : σ}
    (h : Run step s as t) : Run step' s as t := by
  induction h with
  | refl s => exact .refl s
  | cons hs _ ih => exact .cons (hsub _ _ _ hs) ih

theorem Run.append {s t u : σ} {bs : List α} (h : Run step s as t) (h' : Run step t bs u) :
    Run step s (as++bs) u := by
  induction h with
  | refl s => exact h'
  | cons hs _ ih => exact .cons hs (ih h')

/-- What is known of every label of a run may be used at each of its steps. -/
theorem Run.labels {good : α → Prop} {s t : σ} (h : Run step s as t) (hgood : ∀ a∈as, good a) : Run (fun s a t => good a ∧ step s a t) s as t := by
  induction h with
  | refl s => exact .refl s
  | cons hs _ ih =>
    exact .cons ⟨hgood _ List.mem_cons_self,hs⟩ (ih fun a ha => hgood a (List.mem_cons_of_mem _ ha))

/- A step that is a function of state and label, taken under a condition. -/
def Guarded (ok : σ → α → Prop) (f : σ → α → σ) (s : σ) (a : α) (t : σ) : Prop :=
  ok s a ∧ t=f s a

theorem run_foldl (f : σ → α → σ) (as : List α) (s : σ) :
    Run (fun s a t => t=f s a) s as (as.foldl f s) := by
  induction as generalizing s with
  | nil => exact .refl s
  | cons a as ih => exact .cons rfl (ih (f s a))

/- Whether a check passes at every step of a fold. -/
def checks (check : σ → α → Bool) (f : σ → α → σ) : σ → List α → Bool
  | _, [] => true
  | s, a::as => check s a && checks check f (f s a) as

theorem run_of_checks {check : σ → α → Bool} {ok : σ → α → Prop} {f : σ → α → σ}
    (hsound : ∀ s a, check s a=true → ok s a) {s : σ} (h : checks check f s as=true) :
    Run (Guarded ok f) s as (as.foldl f s) := by
  induction as generalizing s with
  | nil => exact .refl s
  | cons a as ih =>
    rw [checks,Bool.and_eq_true] at h
    exact .cons ⟨hsound s a h.1,rfl⟩ (ih h.2)

section
variable {f : σ → α → σ} {s : σ} {a : α} {as : List α}

variable {P : σ → Prop} {ok : σ → α → Prop}

/-- Along a fold a property holds at the start and along the rest. -/
theorem states_along_cons :
    (∀ before after, a::as=before++after → P (before.foldl f s)) ↔
      P s ∧ ∀ before after, as=before++after → P (before.foldl f (f s a)) := by
  constructor
  · intro h
    exact ⟨h [] (a::as) rfl,fun before after heq => h (a::before) after (by rw [heq]; rfl)⟩
  · intro h before after heq
    cases before with
    | nil => exact h.1
    | cons b before =>
      obtain ⟨rfl,htail⟩ := List.cons.inj heq
      exact h.2 before after htail

theorem steps_along_nil (before : List α) (b : α) (after : List α) (h : []=before++b::after) : ok (before.foldl f s) b :=
  absurd h.symm (by simp)

theorem steps_along_cons :
    (∀ before b after, a::as=before++b::after → ok (before.foldl f s) b) ↔
      ok s a ∧ ∀ before b after, as=before++b::after → ok (before.foldl f (f s a)) b := by
  constructor
  · intro h
    exact ⟨h [] a as rfl,fun before b after heq => h (a::before) b after (by rw [heq]; rfl)⟩
  · intro h before b after heq
    cases before with
    | nil =>
      obtain ⟨rfl,-⟩ := List.cons.inj heq
      exact h.1
    | cons c before =>
      obtain ⟨rfl,htail⟩ := List.cons.inj heq
      exact h.2 before b after htail

/-- While an invariant holds, the next step has the property exactly under a condition, under which
it keeps the invariant, as far as the states of the fold are good. Then the property holds all along
the fold exactly when every step of it meets the condition. -/
theorem foldl_holds_iff_of_good (good inv : σ → Prop) (hholds : ∀ s, inv s → P s)
    (hstep : ∀ s a, inv s → good (f s a) → (P (f s a) ↔ ok s a))
    (hkeep : ∀ s a, inv s → good (f s a) → ok s a → inv (f s a)) (as : List α) (hs : inv s)
    (hgood : ∀ before after, as=before++after → good (before.foldl f s)) :
    (∀ before after, as=before++after → P (before.foldl f s)) ↔
      ∀ before a after, as=before++a::after → ok (before.foldl f s) a := by
  induction as generalizing s with
  | nil =>
    refine iff_of_true (fun before after h => ?_) steps_along_nil
    rw [(List.append_eq_nil_iff.mp h.symm).1]
    exact hholds s hs
  | cons a as ih =>
    obtain ⟨-,hrest⟩ := states_along_cons.mp hgood
    have hgooda : good (f s a) := hrest [] as rfl
    rw [states_along_cons,steps_along_cons,← hstep s a hs hgooda]
    constructor
    · intro h
      have hPa : P (f s a) := h.2 [] as rfl
      exact ⟨hPa,(ih (hkeep s a hs hgooda ((hstep s a hs hgooda).mp hPa)) hrest).mp h.2⟩
    · intro h
      exact ⟨hholds s hs,(ih (hkeep s a hs hgooda ((hstep s a hs hgooda).mp h.1)) hrest).mpr h.2⟩

theorem foldl_holds_iff (inv : σ → Prop) (hholds : ∀ s, inv s → P s)
    (hstep : ∀ s a, inv s → (P (f s a) ↔ ok s a)) (hkeep : ∀ s a, inv s → ok s a → inv (f s a))
    (as : List α) (hs : inv s) :
    (∀ before after, as=before++after → P (before.foldl f s)) ↔
      ∀ before a after, as=before++a::after → ok (before.foldl f s) a :=
  foldl_holds_iff_of_good (fun _ => True) inv hholds (fun s a h _ => hstep s a h)
    (fun s a h _ => hkeep s a h) as hs fun _ _ _ => trivial

/-- When a step keeps a property exactly under a condition, the property holds all along a
fold exactly when every step of it meets the condition. -/
theorem foldl_along_iff (inv : σ → Prop) (hinv : ∀ s a, inv s → inv (f s a))
    (hstep : ∀ s a, inv s → P s → (P (f s a) ↔ ok s a)) (as : List α) (hs : inv s) (hP : P s) :
    (∀ before after, as=before++after → P (before.foldl f s)) ↔
      ∀ before a after, as=before++a::after → ok (before.foldl f s) a := by
  refine foldl_holds_iff (fun s => inv s ∧ P s) (fun s h => h.2) (fun s a h => hstep s a h.1 h.2)
    (fun s a h hok => ⟨hinv s a h.1,(hstep s a h.1 h.2).mpr hok⟩) as ⟨hs,hP⟩
end

section
variable {τ β : Type*} [DecidableEq τ] {f : τ → β} {t u : τ} {x y : β}

/-- What a thread is at after one has moved. -/
theorem update_eq_iff : Function.update f t x u=y ↔ u=t ∧ x=y ∨ u≠t ∧ f u=y := by
  by_cases hut : u=t <;> simp [hut]

/- No two threads hold the same key. -/
def Exclusive {κ : Type*} (key : β → Option κ) (f : τ → β) : Prop :=
  ∀ t u k, key (f t)=some k → key (f u)=some k → t=u

theorem Exclusive.update {κ : Type*} {key : β → Option κ} (h : Exclusive key f)
    (hnew : ∀ k, key x=some k → ∀ u, key (f u)=some k → u=t) : Exclusive key (Function.update f t x) := by
  intro u v k hu hv
  by_cases hut : u=t <;> by_cases hvt : v=t
  · exact hut.trans hvt.symm
  · rw [hut,Function.update_self] at hu
    rw [Function.update_of_ne hvt] at hv
    exact hut.trans (hnew k hu v hv).symm
  · rw [hvt,Function.update_self] at hv
    rw [Function.update_of_ne hut] at hu
    exact (hnew k hv u hu).trans hvt.symm
  · rw [Function.update_of_ne hut] at hu
    rw [Function.update_of_ne hvt] at hv
    exact h u v k hu hv

/- What threads hold has a number each: that of the draw that it came from. -/
structure Ticketed (number : β → Nat) (held : τ → Option β) (draws : Nat) : Prop where
  drawn : ∀ t b, held t=some b → number b < draws
  apart : ∀ t u a b, held t=some a → held u=some b → number a=number b → t=u

variable {number : β → Nat} {held : τ → Option β} {draws : Nat}

theorem Ticketed.draw (h : Ticketed number held draws) {b : β} (hb : number b=draws) (t : τ) :
    Ticketed number (Function.update held t (some b)) (draws+1) := by
  have hnumber : ∀ u a, Function.update held t (some b) u=some a →
      u=t ∧ number a=draws ∨ held u=some a ∧ number a < draws := by
    intro u a hu
    rcases update_eq_iff.mp hu with ⟨hut,hnew⟩ | ⟨-,hold⟩
    · exact Or.inl ⟨hut,Option.some.inj hnew ▸ hb⟩
    · exact Or.inr ⟨hold,h.drawn u a hold⟩
  refine ⟨fun u a hu => ?_,fun u v a a' hu hv heq => ?_⟩
  · have hcases := hnumber u a hu
    omega
  · -- two numbers are the same only if both are new or neither is
    rcases hnumber u a hu with ⟨hut,ha⟩ | ⟨hu,ha⟩ <;>
      rcases hnumber v a' hv with ⟨hvt,ha'⟩ | ⟨hv,ha'⟩
    · exact hut.trans hvt.symm
    · omega
    · omega
    · exact h.apart u v a a' hu hv heq

theorem Ticketed.drop (h : Ticketed number held draws) (t : τ) :
    Ticketed number (Function.update held t none) draws := by
  have hother : ∀ {u a}, Function.update held t none u=some a → held u=some a := by
    intro u a hu
    rcases update_eq_iff.mp hu with ⟨-,hnone⟩ | ⟨-,hold⟩
    · cases hnone
    · exact hold
  exact ⟨fun u a hu => h.drawn u a (hother hu),
    fun u v a b hu hv => h.apart u v a b (hother hu) (hother hv)⟩
end

section
variable {ε α β : Type} {x : Except ε α} {f : α → Except ε β}

theorem bind_ok (a : α) (f : α → Except ε β) : (Except.ok a >>= f)=f a := rfl

/-- A program ends with a value exactly if its first part does and the rest does from there. -/
theorem bind_eq_ok {b : β} : (x >>= f) = .ok b ↔ ∃ a, x = .ok a ∧ f a = .ok b := by
  cases x <;> simp [bind,Except.bind]
end

end AetherX.Machine
