import AetherX.Catalog

/-! Reloads of the node catalog from its file, and the status that is kept of them. -/
namespace AetherX.CatalogReload
open ByteText Catalog

inductive FileError where
  | stat
  | notRegular
  | read

inductive Fault (ε : Type) where
  | unreadable (err : FileError)
  | malformed
  | invalid (err : CatalogError ε)

/- The contents that the file takes on, which the fingerprint tells apart. -/
structure Source (C D ε : Type) where
  digest : C → D
  distinguishes : Function.Injective digest
  parse : C → Option CatalogDocument
  decoders : Decoders ε
  message : Fault ε → Text
  message_ne : ∀ fault, message fault≠[]

structure CatalogReloadStatus where
  activeVersion : Text
  loadedAt : Int
  lastAttemptAt : Int
  lastError : Text
  accepted : UInt64
  rejected : UInt64

structure CatalogReloadResult (ε : Type) where
  changed : Bool := false
  accepted : Bool := false
  err : Option (Fault ε) := none

structure Service (D : Type) where
  catalog : NodeCatalog
  fingerprint : D
  status : CatalogReloadStatus

variable {C D ε : Type} [DecidableEq D] (src : Source C D ε)

abbrev File (C : Type) := Except FileError C

def decodeNodeCatalog (contents : C) : Except (Fault ε) NodeCatalog :=
  match src.parse contents with
  | none => .error .malformed
  | some document => (newNodeCatalog src.decoders document).mapError .invalid

def newService (file : File C) (now : Int) : Except (Fault ε) (Service D) := do
  let contents ← file.mapError .unreadable
  let catalog ← decodeNodeCatalog src contents
  .ok ⟨catalog,src.digest contents,⟨catalog.version,now,now,[],1,0⟩⟩

def recordAttempt (s : Service D) (now : Int) : Service D := { s with status := { s.status with lastAttemptAt := now } }

def recordRejected (s : Service D) (now : Int) (fault : Fault ε) : Service D :=
  { s with status := { s.status with
      lastAttemptAt := now, lastError := src.message fault, rejected := s.status.rejected+1 } }

def reload (s : Service D) (file : File C) (now : Int) : Service D × CatalogReloadResult ε :=
  match file with
  | .error err => (recordRejected src s now (.unreadable err), { changed := true, err := some (.unreadable err) })
  | .ok contents =>
    if src.digest contents=s.fingerprint then (recordAttempt s now, {})
    else match decodeNodeCatalog src contents with
    | .error fault => (recordRejected src s now fault, { changed := true, err := some fault })
    | .ok catalog =>
      ({ catalog, fingerprint := src.digest contents
         status := { s.status with
            activeVersion := catalog.version, loadedAt := now, lastAttemptAt := now, lastError := []
            accepted := s.status.accepted+1 } }, { changed := true, accepted := true })

/- What the attempts so far have seen. -/
structure Seen (C : Type) where
  active : C
  rejected : Nat
  lastRejected : Bool

def rejects : File C → Bool
  | .error _ => true
  | .ok contents => !(decodeNodeCatalog src contents).isOk

def Seen.see (g : Seen C) (file : File C) : Seen C :=
  if rejects src file then ⟨g.active,g.rejected+1,true⟩
  else match file with
  | .ok contents => ⟨contents,g.rejected,false⟩
  | .error _ => g

def step (state : Service D × Seen C) (attempt : File C × Int) : Service D × Seen C :=
  ((reload src state.1 attempt.1 attempt.2).1, state.2.see src attempt.1)

def Truthful (state : Service D × Seen C) : Prop :=
  decodeNodeCatalog src state.2.active = .ok state.1.catalog ∧
    state.1.status.activeVersion=state.1.catalog.version ∧
    state.1.status.rejected.toNat=state.2.rejected ∧
    (state.1.status.lastError≠[] ↔ state.2.lastRejected=true)

/- The active contents do not come back right after a rejection, and the counter has room for one. -/
def Plain (seen : Seen C) (attempt : File C × Int) : Prop :=
  (attempt.1 = .ok seen.active → seen.lastRejected=false) ∧
    (rejects src attempt.1=true → seen.rejected+1<2^64)

structure Inv (state : Service D × Seen C) : Prop where
  decodes : decodeNodeCatalog src state.2.active = .ok state.1.catalog
  version : state.1.status.activeVersion=state.1.catalog.version
  fingerprint : state.1.fingerprint=src.digest state.2.active

variable {src} {state : Service D × Seen C} {now : Int}

omit [DecidableEq D] in
theorem truthful_reject_iff (h : Inv src state) (ht : Truthful src state) (fault : Fault ε) :
    Truthful src (recordRejected src state.1 now fault, ⟨state.2.active,state.2.rejected+1,true⟩) ↔
      state.2.rejected+1<2^64 := by
  have hcount : (state.1.status.rejected+1).toNat=(state.2.rejected+1)%2^64 := by
    rw [UInt64.toNat_add,ht.2.2.1]
    rfl
  refine ⟨fun hr => ?_,fun hlt => ⟨h.decodes,h.version,?_,iff_of_true (src.message_ne fault) rfl⟩⟩
  · have hseen : (state.1.status.rejected+1).toNat=state.2.rejected+1 := hr.2.2.1
    rw [← hseen]
    exact UInt64.toNat_lt _
  · exact hcount.trans (Nat.mod_eq_of_lt hlt)

theorem Inv.step (h : Inv src state) (attempt : File C × Int) : Inv src (step src state attempt) := by
  obtain ⟨file,now⟩ := attempt
  cases file with
  | error err => exact ⟨h.decodes,h.version,h.fingerprint⟩
  | ok contents =>
    rw [CatalogReload.step,reload,Seen.see,rejects]
    by_cases hsame : src.digest contents=state.1.fingerprint
    · obtain rfl := src.distinguishes (hsame.trans h.fingerprint)
      rw [if_pos hsame,h.decodes]
      exact ⟨h.decodes,h.version,h.fingerprint⟩
    · rw [if_neg hsame]
      cases hdecode : decodeNodeCatalog src contents with
      | error fault => exact ⟨h.decodes,h.version,h.fingerprint⟩
      | ok catalog => exact ⟨hdecode,rfl,rfl⟩

theorem truthful_step_iff (h : Inv src state) (ht : Truthful src state) (attempt : File C × Int) :
    Truthful src (step src state attempt) ↔ Plain src state.2 attempt := by
  obtain ⟨file,now⟩ := attempt
  cases file with
  | error err =>
    refine (truthful_reject_iff h ht (.unreadable err)).trans ⟨fun hlt => ⟨nofun,fun _ => hlt⟩,fun hp => hp.2 rfl⟩
  | ok contents =>
    rw [step,reload,Seen.see,Plain,rejects]
    by_cases hsame : src.digest contents=state.1.fingerprint
    · obtain rfl := src.distinguishes (hsame.trans h.fingerprint)
      rw [if_pos hsame,h.decodes]
      refine ⟨fun hr => ⟨fun _ => ?_,nofun⟩,fun hp => ⟨h.decodes,h.version,ht.2.2.1,?_⟩⟩
      · rw [← Bool.not_eq_true,← ht.2.2.2]
        exact fun herr => Bool.false_ne_true (hr.2.2.2.mp herr)
      · refine iff_of_false (fun herr => ?_) Bool.false_ne_true
        exact Bool.false_ne_true ((hp.1 rfl).symm.trans (ht.2.2.2.mp herr))
    · have hne : contents≠state.2.active := fun heq => hsame (by rw [heq,h.fingerprint])
      rw [if_neg hsame]
      cases hdecode : decodeNodeCatalog src contents with
      | error fault =>
        exact (truthful_reject_iff h ht fault).trans
          ⟨fun hlt => ⟨fun heq => absurd (Except.ok.inj heq) hne,fun _ => hlt⟩,fun hp => hp.2 rfl⟩
      | ok catalog =>
        refine iff_of_true ⟨hdecode,rfl,ht.2.2.1,iff_of_false (fun h => h rfl) Bool.false_ne_true⟩ ?_
        exact ⟨fun heq => absurd (Except.ok.inj heq) hne,nofun⟩

/-- The status is truthful all along exactly if the active contents never come back right after a
rejected attempt, and the attempts that are rejected can be counted. -/
theorem reload_truthful (src : Source C D ε) (contents : C) (start : Int) (s : Service D)
    (hs : newService src (.ok contents) start = .ok s) (attempts : List (File C × Int)) :
    (∀ before after, attempts=before++after → Truthful src (before.foldl (step src) (s, ⟨contents,0,false⟩))) ↔
      ∀ before attempt after, attempts=before++attempt::after →
        Plain src (before.foldl (step src) (s, ⟨contents,0,false⟩)).2 attempt := by
  obtain ⟨_,hfile,hs⟩ := Machine.bind_eq_ok.mp hs
  cases hfile
  obtain ⟨catalog,hdecode,hs⟩ := Machine.bind_eq_ok.mp hs
  cases hs
  exact Machine.foldl_along_iff (Inv src) (fun _ a h => h.step a) (fun _ a h ht => truthful_step_iff h ht a) attempts
    ⟨hdecode,rfl,rfl⟩ ⟨hdecode,rfl,rfl,iff_of_false (fun h => h rfl) Bool.false_ne_true⟩

/- A file that holds the catalog or nothing. -/
def onOff : Source Bool Bool Empty where
  digest := id
  distinguishes := Function.injective_id
  parse contents := if contents then some twoNodes else none
  decoders := declaredTypes
  message _ := text "x"
  message_ne _ := by decide

theorem decode_onOff : ∃ catalog, decodeNodeCatalog onOff true = .ok catalog ∧
    newService onOff (.ok true) 0 = .ok ⟨catalog,true,⟨catalog.version,0,0,[],1,0⟩⟩ := by
  have hok := isOk_twoNodes
  cases hcatalog : newNodeCatalog declaredTypes twoNodes with
  | error err =>
    rw [hcatalog] at hok
    cases hok
  | ok catalog =>
    have hdecode : decodeNodeCatalog onOff true = .ok catalog := congrArg (Except.mapError Fault.invalid) hcatalog
    exact ⟨catalog,hdecode,Machine.bind_eq_ok.mpr ⟨true,rfl,Machine.bind_eq_ok.mpr ⟨catalog,hdecode,rfl⟩⟩⟩

theorem reload_truthful_onOff : ∃ s, newService onOff (.ok true) 0 = .ok s ∧
    Truthful onOff ([(.ok false, 1)].foldl (step onOff) (s, ⟨true,0,false⟩)) := by
  obtain ⟨catalog,-,hs⟩ := decode_onOff
  refine ⟨_,hs,(reload_truthful onOff true 0 _ hs [(.ok false, 1)]).mpr (fun before attempt after heq => ?_) _ [] rfl⟩
  cases before with
  | nil =>
    cases heq
    exact ⟨fun _ => rfl,fun _ => Nat.one_lt_two_pow (by decide)⟩
  | cons b before => simp at heq

/- The file is broken and then mended; the error remains. -/
theorem error_outlives_rejection : ∃ s, newService onOff (.ok true) 0 = .ok s ∧
    ¬ Truthful onOff ([(.ok false, 1),(.ok true, 2)].foldl (step onOff) (s, ⟨true,0,false⟩)) := by
  obtain ⟨catalog,hdecode,hs⟩ := decode_onOff
  refine ⟨_,hs,fun h => ?_⟩
  have hseen : ((⟨true,1,true⟩ : Seen Bool).see onOff (.ok true)).lastRejected=false := by
    rw [Seen.see,rejects,hdecode]
    rfl
  exact Bool.false_ne_true (hseen.symm.trans (h.2.2.2.mp (List.cons_ne_nil _ _)))

end AetherX.CatalogReload
