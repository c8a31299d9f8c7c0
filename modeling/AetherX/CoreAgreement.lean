import AetherX.CoreThreads

/-! Calls one after the other, as runs of the threads, and the agreement of supervisor and
adapters in every orderly run. -/
namespace AetherX.CoreThreads
open Supervisor Machine ManagedProcess MockCores
variable {τ ι : Type*} [DecidableEq τ] [DecidableEq ι]

def sections (adapters : CoreKind → Option ι) (now : Instant) :
    Nat → CoreSupervisor ι × Task ι → CoreSupervisor ι × Task ι
  | 0, p => p
  | k+1, p => sections adapters now k (advance adapters now true p.1 p.2)

/-- The sections of a call in a row are the sequential call. -/
theorem sections_startCore (adapters : CoreKind → Option ι) (s : CoreSupervisor ι) (now : Instant)
    (config : CoreConfig) :
    sections adapters now 5 (s, .checking config) =
      ((s.startCore adapters config now).1, .idle (some (s.startCore adapters config now).2)) := by
  rw [CoreSupervisor.startCore]
  cases hlisted : s.instances.lookup config.instanceId with
  | some n => simp only [sections,advance,hlisted,Task.fail]
  | none =>
    cases hadapter : CoreSupervisor.adapter adapters config.kind with
    | error e => simp only [sections,advance,hlisted,hadapter,Task.fail]
    | ok i =>
      cases hheld : (s.mocks i).holds config.instanceId with
      | true =>
        simp only [sections,advance,hlisted,hadapter,start_held now hheld,Task.fail]
      | false =>
        have hready : CoreSupervisor.waitForStartupReadiness
            (launched (s.mocks i) config.instanceId now) (handleOf config) = .ok () :=
          readiness_of_runs (runs_launched (s.mocks i) config.instanceId now)
        simp only [sections,advance,hlisted,hadapter,start_vacant now hheld,
          setMock_mocks_self,hready,Task.succeed]

theorem sections_stopCore (adapters : CoreKind → Option ι) (s : CoreSupervisor ι) (now : Instant)
    (id : String) :
    sections adapters now 5 (s, .finding id) =
      ((s.stopCore adapters id).1, .idle (some (s.stopCore adapters id).2)) := by
  rw [CoreSupervisor.stopCore]
  cases hlisted : s.instances.lookup id with
  | none => simp only [sections,advance,hlisted,Task.fail]
  | some n =>
    cases hadapter : CoreSupervisor.adapter adapters (s.records n).kind with
    | error e => simp only [sections,advance,hlisted,hadapter,Task.fail]
    | ok i =>
      cases hstop : (s.mocks i).stop (s.records n).handle with
      | error e => simp only [sections,advance,hlisted,hadapter,hstop,Task.fail]
      | ok m => simp only [sections,advance,hlisted,hadapter,hstop,Task.succeed]

theorem sections_restartCore (adapters : CoreKind → Option ι) (s : CoreSupervisor ι) (now : Instant)
    (id : String) :
    sections adapters now 5 (s, .looking id) =
      ((s.restartCore adapters id now).1, .idle (some (s.restartCore adapters id now).2)) := by
  rw [CoreSupervisor.restartCore]
  cases hlisted : s.instances.lookup id with
  | none => simp only [sections,advance,hlisted,Task.fail]
  | some n =>
    cases hadapter : CoreSupervisor.adapter adapters (s.records n).kind with
    | error e => simp only [sections,advance,hlisted,hadapter,Task.fail]
    | ok i =>
      cases hrestart : (s.mocks i).restart (s.records n).handle now with
      | error e => simp only [sections,advance,hlisted,hadapter,hrestart,Task.fail]
      | ok m =>
        cases hready : CoreSupervisor.waitForStartupReadiness m (s.records n).handle with
        | error e =>
          simp only [sections,advance,hlisted,hadapter,hrestart,setMock_mocks_self,hready,
            if_true,Task.fail]
        | ok _ =>
          simp only [sections,advance,hlisted,hadapter,hrestart,setMock_mocks_self,hready,
            Task.succeed]

/- Every call has at most five sections. -/
def uninterrupted (t : τ) (call : Call) (now : Instant) : List (Event τ) :=
  .call t call::List.replicate 5 (.resume t now true)

/-- In every interleaving whose sections are orderly, supervisor and adapters agree whenever all
calls have returned. -/
theorem cores_agree_when_quiet (adapters : CoreKind → Option ι) (memory : Nat → InstanceRecord)
    (events : List (Event τ)) (s : System τ ι)
    (hrun : Run (Guarded Orderly (System.next adapters)) (.start memory) events s)
    (hquiet : s.Quiet) : Agreement s := by
  have hinv : Inv adapters s := by
    refine hrun.invariant (inv_start memory) ?_
    rintro s event s' h ⟨hok,rfl⟩
    exact h.step hok
  exact hinv.agreement hquiet

/- Enough for a section to be orderly when there are two threads. -/
def isOrderly (s : System Bool ι) : Event Bool → Bool
  | .call _ _ => true
  | .resume t _ _ =>
    match s.task t with
    | .launching config _ => (s.supervisor.instances.lookup config.instanceId).isNone &&
      (s.task (!t)).owns.isNone
    | .removing id => (s.supervisor.instances.lookup id).isNone
    | .restarting _ _ handle => (s.supervisor.instances.lookup handle.instanceId).any fun n =>
      (s.supervisor.records n).kind == handle.kind
    | _ => true

omit [DecidableEq ι] in
theorem orderly_of_isOrderly (s : System Bool ι) (event : Event Bool)
    (h : isOrderly s event=true) : Orderly s event := by
  cases event with
  | call t call => trivial
  | resume t now expired =>
    rw [isOrderly] at h
    rw [Orderly]
    cases htask : s.task t with
    | launching config i =>
      simp only [htask,Bool.and_eq_true,Option.isNone_iff_eq_none] at h ⊢
      refine fun _ => ⟨h.1,fun u j kind hu => ?_⟩
      rcases eq_or_ne u t with rfl | hne
      · rw [htask] at hu
        cases hu
      · rw [Bool.eq_not_of_ne hne,h.2] at hu
        cases hu
    | removing id =>
      simp only [htask,Option.isNone_iff_eq_none] at h ⊢
      intro n hn
      rw [h] at hn
      cases hn
    | restarting n i handle =>
      simpa only [htask,Option.any_eq_true,beq_iff_eq] using h
    | _ => trivial

theorem cores_agree_when_quiet_restarted : ∃ s : System Bool Unit,
    Run (Guarded Orderly (System.next defaultAdapters)) (.start fun _ => blankRecord)
      (uninterrupted true (.startCore (mockConfig "svc-1" .singBox) 1) 1 ++
        uninterrupted false (.restartCore "svc-1" 2) 2) s ∧
    s.Quiet ∧ s.runs () "svc-1" ∧ Agreement s := by
  let events := uninterrupted true (.startCore (mockConfig "svc-1" .singBox) 1) 1 ++
    uninterrupted false (.restartCore "svc-1" 2) 2
  let s : System Bool Unit := events.foldl (System.next defaultAdapters) (.start fun _ => blankRecord)
  have hrun : Run (Guarded Orderly (System.next defaultAdapters)) (.start fun _ => blankRecord) events s :=
    run_of_checks orderly_of_isOrderly (by decide +kernel)
  have hquiet : s.Quiet := by
    intro t
    apply Task.exists_of_isIdle
    cases t <;> decide +kernel
  have hruns : s.runs () "svc-1" := by
    rw [System.runs]
    decide +kernel
  exact ⟨s,hrun,hquiet,hruns,cores_agree_when_quiet defaultAdapters _ events s hrun hquiet⟩

/- A restart that found the instance listed runs between the two halves of a stop. -/
def restartedWhileStopping : List (Event Bool) :=
  uninterrupted true (.startCore (mockConfig "svc-1" .singBox) 1) 1 ++
    [.call true (.stopCore "svc-1"),.call false (.restartCore "svc-1" 2),
      .resume true 2 false,.resume true 2 false,.resume true 2 false,
      .resume false 2 false,.resume false 2 false,
      -- the core is stopped, restarted, and then taken off the list
      .resume true 2 false,.resume false 2 false,.resume true 2 false,
      .resume false 2 false,.resume false 2 false]

theorem restarted_core_unlisted :
    ¬ ∀ (memory : Nat → InstanceRecord) (events : List (Event Bool)),
      let s : System Bool Unit := events.foldl (System.next defaultAdapters) (.start memory)
      s.Quiet → Agreement s := by
  intro h
  have hquiet : (restartedWhileStopping.foldl (System.next defaultAdapters)
      (.start fun _ => blankRecord) : System Bool Unit).Quiet := by
    intro t
    apply Task.exists_of_isIdle
    cases t <;> decide +kernel
  have hagree := h (fun _ => blankRecord) restartedWhileStopping hquiet
  obtain ⟨n,hn,-⟩ := hagree.listed () "svc-1" (by decide +kernel)
  have hnone : (restartedWhileStopping.foldl (System.next defaultAdapters)
      (.start fun _ => blankRecord) : System Bool Unit).supervisor.instances.lookup "svc-1" =
      none := by decide +kernel
  exact absurd (hnone.symm.trans hn) nofun

end AetherX.CoreThreads
