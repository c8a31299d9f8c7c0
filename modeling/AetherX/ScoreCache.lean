import Mathlib.Tactic.SplitIfs
import AetherX.Machine

/-! The caching reader of catalog scores. Each caller reads the clock once, on entering; one of them
refreshes the scores of an ISP, the others take a cached entry or wait for its result. -/
namespace AetherX.ScoreCache
open Machine Function

/- Times and durations in nanoseconds; the zero time is 0. -/
structure Options where
  freshTtl : Int
  maxStale : Int
  cooldown : Int
  deriving DecidableEq

def second : Int := 1000000000

def defaultOptions : Options := ⟨30*second,300*second,15*second⟩

def Options.normalize (o : Options) : Options :=
  let freshTtl := if o.freshTtl≤0 then defaultOptions.freshTtl else o.freshTtl
  { freshTtl
    maxStale := if o.maxStale < freshTtl then defaultOptions.maxStale else o.maxStale
    cooldown := if o.cooldown≤0 then defaultOptions.cooldown else o.cooldown }

theorem Options.normalize_freshTtl_pos (o : Options) : 0 < o.normalize.freshTtl := by
  dsimp only [normalize]
  split_ifs with h
  · decide
  · omega

structure Read where
  started : Int
  ended : Int
  deriving DecidableEq

/- A cached entry, and with it the read that its scores are from. -/
structure Entry (S : Type*) where
  scores : S
  fetched : Int
  read : Read
  deriving DecidableEq

inductive ScoreError (ε : Type*) where
  | circuitOpen
  | reader (err : ε)
  | context (err : ε)
  deriving DecidableEq

variable {ι S ε τ : Type*}

structure Cache (ι S τ : Type*) where
  entries : ι → Option (Entry S)
  -- the caller that refreshes the scores of an ISP
  inflight : ι → Option τ
  openUntil : Int

inductive Look (S τ : Type*) where
  | serve (e : Entry S)
  | refuse
  | join (owner : τ)
  | lead

namespace Cache
def usable (c : Cache ι S τ) (maxAge now : Int) (isp : ι) : Option (Entry S) :=
  (c.entries isp).filter fun e => now-e.fetched ≤ maxAge

def look (options : Options) (c : Cache ι S τ) (now : Int) (isp : ι) : Look S τ :=
  match c.usable options.freshTtl now isp with
  | some e => .serve e
  | none =>
    if now < c.openUntil then
      match c.usable options.maxStale now isp with
      | some e => .serve e
      | none => .refuse
    else
      match c.inflight isp with
      | some owner => match c.usable options.maxStale now isp with
        | some e => .serve e
        | none => .join owner
      | none => .lead

/- What a refresh that began at now gives its caller and those who wait for it. -/
def result (options : Options) (c : Cache ι S τ) (now : Int) (isp : ι) (read : Read) :
    Except ε S → Except (ScoreError ε) (Entry S)
  | .ok scores => .ok ⟨scores,now,read⟩
  | .error err => match c.usable options.maxStale now isp with
    | some e => .ok e
    | none => .error (.reader err)

def settle [DecidableEq ι] (options : Options) (c : Cache ι S τ) (now : Int) (isp : ι) (read : Read) :
    Except ε S → Cache ι S τ
  | .ok scores =>
    ⟨update c.entries isp (some ⟨scores,now,read⟩),update c.inflight isp none,0⟩
  | .error _ => ⟨c.entries,update c.inflight isp none,now+options.cooldown⟩

end Cache

inductive Task (ι S ε τ : Type*) where
  | idle
  | entered (isp : ι) (now : Int)
  | starting (isp : ι) (now : Int)
  | reading (isp : ι) (now started : Int)
  | settling (isp : ι) (now : Int) (read : Read) (outcome : Except ε S)
  | waiting (isp : ι) (now : Int) (owner : τ)
  | woken (now : Int) (result : Except (ScoreError ε) (Entry S))

/- Closing the channel of a refresh hands its result to everyone who waits for it; each of them
   returns in its own time. -/
def Task.wake [DecidableEq τ] (owner : τ) (result : Except (ScoreError ε) (Entry S)) :
    Task ι S ε τ → Task ι S ε τ
  | .waiting isp now u => if u = owner then .woken now result else .waiting isp now u
  | task => task

structure Answer (S ε : Type*) where
  entered : Int
  result : Except (ScoreError ε) (Entry S)

structure System (ι S ε τ : Type*) where
  clock : Int
  cache : Cache ι S τ
  task : τ → Task ι S ε τ
  answers : List (Answer S ε)

inductive Event (ι S ε τ : Type*) where
  | pass (d : Nat)
  | readScores (t : τ) (isp : ι)
  | look (t : τ)
  | start (t : τ)
  | finish (t : τ) (outcome : Except ε S)
  | settle (t : τ)
  | wake (t : τ)
  | cancel (t : τ) (err : ε)

namespace System
def new (clock : Int) : System ι S ε τ := ⟨clock,⟨fun _ => none,fun _ => none,0⟩,fun _ => .idle,[]⟩

variable [DecidableEq ι] [DecidableEq τ] (options : Options)

def become (s : System ι S ε τ) (t : τ) (task : Task ι S ε τ) : System ι S ε τ :=
  { s with task := update s.task t task }

def answer (s : System ι S ε τ) (t : τ) (now : Int) (result : Except (ScoreError ε) (Entry S)) :
    System ι S ε τ :=
  { s with task := update s.task t .idle, answers := s.answers++[⟨now,result⟩] }

def handle (s : System ι S ε τ) : Event ι S ε τ → System ι S ε τ
  | .pass d => { s with clock := s.clock+d }
  | .readScores t isp => match s.task t with
    | .idle => s.become t (.entered isp s.clock)
    | _ => s
  | .look t => match s.task t with
    | .entered isp now => match s.cache.look options now isp with
      | .serve e => s.answer t now (.ok e)
      | .refuse => s.answer t now (.error .circuitOpen)
      | .join owner => s.become t (.waiting isp now owner)
      | .lead =>
        let cache := { s.cache with inflight := update s.cache.inflight isp (some t) }
        { s with cache }.become t (.starting isp now)
    | _ => s
  | .start t => match s.task t with
    | .starting isp now => s.become t (.reading isp now s.clock)
    | _ => s
  | .finish t outcome => match s.task t with
    | .reading isp now started => s.become t (.settling isp now ⟨started,s.clock⟩ outcome)
    | _ => s
  | .settle t => match s.task t with
    | .settling isp now read outcome =>
      let result := s.cache.result options now isp read outcome
      { s with
        cache := s.cache.settle options now isp read outcome
        task := fun u => (s.task u).wake t result }.answer t now result
    | _ => s
  | .wake t => match s.task t with
    | .woken now result => s.answer t now result
    | _ => s
  | .cancel t err => match s.task t with
    | .waiting _ now _ | .woken now _ => s.answer t now (.error (.context err))
    | _ => s

/- What an event does to the system; the others find their caller somewhere else and do nothing. -/
inductive Moves (options : Options) (s : System ι S ε τ) : Event ι S ε τ → System ι S ε τ → Prop
  | stay (e : Event ι S ε τ) : Moves options s e s
  | pass (d : Nat) : Moves options s (.pass d) { s with clock := s.clock+d }
  | enter {t : τ} (isp : ι) : s.task t = .idle →
    Moves options s (.readScores t isp) (s.become t (.entered isp s.clock))
  | serve {t : τ} {isp : ι} {now : Int} {e : Entry S} : s.task t = .entered isp now →
    s.cache.look options now isp = .serve e → Moves options s (.look t) (s.answer t now (.ok e))
  | refuse {t : τ} {isp : ι} {now : Int} : s.task t = .entered isp now →
    s.cache.look options now isp = .refuse → Moves options s (.look t) (s.answer t now (.error .circuitOpen))
  | join {t owner : τ} {isp : ι} {now : Int} : s.task t = .entered isp now →
    s.cache.look options now isp = .join owner →
    Moves options s (.look t) (s.become t (.waiting isp now owner))
  | lead {t : τ} {isp : ι} {now : Int} : s.task t = .entered isp now →
    s.cache.look options now isp = .lead → Moves options s (.look t)
      ({ s with cache := { s.cache with inflight := update s.cache.inflight isp (some t) } }.become t
        (.starting isp now))
  | start {t : τ} {isp : ι} {now : Int} : s.task t = .starting isp now →
    Moves options s (.start t) (s.become t (.reading isp now s.clock))
  | finish {t : τ} {isp : ι} {now started : Int} (outcome : Except ε S) : s.task t = .reading isp now started →
    Moves options s (.finish t outcome) (s.become t (.settling isp now ⟨started,s.clock⟩ outcome))
  | settle {t : τ} {isp : ι} {now : Int} {read : Read} {outcome : Except ε S} :
    s.task t = .settling isp now read outcome →
    Moves options s (.settle t) ({ s with
      cache := s.cache.settle options now isp read outcome
      task := fun u => (s.task u).wake t (s.cache.result options now isp read outcome) }.answer t now
        (s.cache.result options now isp read outcome))
  | wake {t : τ} {now : Int} {result : Except (ScoreError ε) (Entry S)} : s.task t = .woken now result →
    Moves options s (.wake t) (s.answer t now result)
  | cancel {t : τ} {now : Int} (err : ε) :
    (∃ isp owner, s.task t = .waiting isp now owner) ∨ (∃ result, s.task t = .woken now result) →
    Moves options s (.cancel t err) (s.answer t now (.error (.context err)))

theorem handle_moves (s : System ι S ε τ) (e : Event ι S ε τ) : Moves options s e (s.handle options e) := by
  cases e with
  | pass d => exact .pass d
  | look t =>
    rw [handle]
    split
    · rename_i isp now ht
      cases hlook : s.cache.look options now isp with
      | serve e => exact .serve ht hlook
      | refuse => exact .refuse ht hlook
      | join owner => exact .join ht hlook
      | lead => exact .lead ht hlook
    · exact .stay _
  | cancel t err =>
    rw [handle]
    split
    · exact .cancel err (.inl ⟨_,_,‹_›⟩)
    · exact .cancel err (.inr ⟨_,‹_›⟩)
    · exact .stay _
  | readScores | start | finish | settle | wake =>
    rw [handle]
    split
    · constructor
      assumption
    · exact .stay _

end System

/- The scores are from a read that began at most MaxStale before the caller entered, or that was
   still running then. -/
def Bounded (maxStale entered : Int) (e : Entry S) : Prop :=
  entered-e.read.started ≤ maxStale ∨ entered ≤ e.read.ended

instance (maxStale entered : Int) (e : Entry S) : Decidable (Bounded maxStale entered e) :=
  inferInstanceAs (Decidable (_ ∨ _))

section
variable {options : Options} {c : Cache ι S τ} {now : Int} {isp : ι} {e : Entry S}

theorem Cache.usable_eq_some_iff {maxAge : Int} :
    c.usable maxAge now isp=some e ↔ c.entries isp=some e ∧ now-e.fetched ≤ maxAge := by
  rw [usable,Option.filter_eq_some_iff,decide_eq_true_iff]

/- An entry is served if it is fresh, or stale within MaxStale; only a caller whose own clock rules
   the entry out waits for a refresh. -/
def Look.Fits (options : Options) (c : Cache ι S τ) (now : Int) (isp : ι) : Look S τ → Prop
  | .serve e =>
    c.entries isp=some e ∧ (now-e.fetched ≤ options.freshTtl ∨ now-e.fetched ≤ options.maxStale)
  | .refuse => True
  | .join owner =>
    c.inflight isp=some owner ∧ ∀ e, c.entries isp=some e → options.maxStale < now-e.fetched
  | .lead => c.inflight isp=none

theorem Cache.look_fits (options : Options) (c : Cache ι S τ) (now : Int) (isp : ι) :
    (c.look options now isp).Fits options c now isp := by
  have hserve : ∀ e, c.usable options.maxStale now isp=some e → (Look.serve e).Fits options c now isp := by
    intro e hstale
    obtain ⟨hentry,hage⟩ := usable_eq_some_iff.mp hstale
    exact ⟨hentry,.inr hage⟩
  rw [look]
  split
  · rename_i e hfresh
    obtain ⟨hentry,hage⟩ := usable_eq_some_iff.mp hfresh
    exact ⟨hentry,.inl hage⟩
  · split_ifs
    · split
      · exact hserve _ ‹_›
      · trivial
    · split
      · rename_i owner hinflight
        split
        · exact hserve _ ‹_›
        · rename_i hstale
          refine ⟨hinflight,fun e hentry => ?_⟩
          by_contra hage
          rw [usable_eq_some_iff.mpr ⟨hentry,by omega⟩] at hstale
          cases hstale
      · assumption

theorem Cache.settle_of_ne [DecidableEq ι] {isp' : ι} {read : Read} (h : isp'≠isp) (outcome : Except ε S) :
    (c.settle options now isp read outcome).inflight isp'=c.inflight isp' ∧
      (c.settle options now isp read outcome).entries isp'=c.entries isp' := by
  cases outcome with
  | ok scores => exact ⟨update_of_ne h _ _,update_of_ne h _ _⟩
  | error err => exact ⟨update_of_ne h _ _,rfl⟩
end

section
variable {options : Options} {clock : Int} {cache : Cache ι S τ} {s : System ι S ε τ}

/- What is known of a caller at its place in the code. -/
def Task.Sound (options : Options) (clock : Int) (cache : Cache ι S τ) (t : τ) : Task ι S ε τ → Prop
  | .idle | .woken _ _ => True
  | .entered _ now => now ≤ clock
  | .starting isp now => now ≤ clock ∧ cache.inflight isp=some t
  | .reading isp now started => now ≤ started ∧ started ≤ clock ∧ cache.inflight isp=some t
  | .settling isp now read _ => now ≤ read.started ∧ read.started ≤ read.ended ∧ cache.inflight isp=some t
  | .waiting isp now owner =>
    now ≤ clock ∧ cache.inflight isp=some owner ∧
      ∀ e, cache.entries isp=some e → options.maxStale < now-e.fetched

structure Inv (options : Options) (s : System ι S ε τ) : Prop where
  entries : ∀ isp e, s.cache.entries isp=some e → e.fetched ≤ e.read.started
  tasks : ∀ t, (s.task t).Sound options s.clock s.cache t

theorem inv_new (clock : Int) : Inv options (System.new clock : System ι S ε τ) :=
  ⟨by rintro _ _ ⟨⟩,fun _ => trivial⟩

variable {now : Int} {isp : ι} {outcome : Except ε S} {t : τ} {task : Task ι S ε τ}

theorem bounded_of_age {maxStale : Int} {e : Entry S} (hfetched : e.fetched ≤ e.read.started)
    (hage : now-e.fetched ≤ maxStale) : Bounded maxStale now e :=
  .inl (by omega)

/-- What a refresh gives is within the bound for the caller that made it. -/
theorem Inv.result_bounded (h : Inv options s) (hmax : 0 ≤ options.maxStale) {read : Read}
    (ht : s.task t = .settling isp now read outcome) {e : Entry S}
    (he : s.cache.result options now isp read outcome = .ok e) : Bounded options.maxStale now e := by
  cases outcome with
  | ok scores =>
    have hsound := h.tasks t
    rw [ht] at hsound
    cases he
    exact bounded_of_age hsound.1 (by dsimp only; omega)
  | error err =>
    rw [Cache.result] at he
    split at he
    · rename_i entry husable
      obtain ⟨hentry,hage⟩ := Cache.usable_eq_some_iff.mp husable
      cases he
      exact bounded_of_age (h.entries isp _ hentry) hage
    · cases he

theorem Task.Sound.later (h : task.Sound options clock cache t) (d : Nat) :
    task.Sound options (clock+d) cache t := by
  cases task with
  | idle | woken | settling => exact h
  | entered isp now => exact Int.le_trans h (by omega)
  | starting isp now => exact ⟨by have := h.1; omega,h.2⟩
  | reading isp now started => exact ⟨h.1,by have := h.2.1; omega,h.2.2⟩
  | waiting isp now owner => exact ⟨by have := h.1; omega,h.2⟩

/-- A caller that takes the lead on an ISP without a refresh disturbs nobody. -/
theorem Task.Sound.lead [DecidableEq ι] {t' : τ} (h : task.Sound options clock cache t)
    (hfree : cache.inflight isp=none) :
    task.Sound options clock { cache with inflight := update cache.inflight isp (some t') } t := by
  have hkeep : ∀ isp' u, cache.inflight isp'=some u →
      update cache.inflight isp (some t') isp'=some u := by
    intro isp' u hu
    rw [update_of_ne,hu]
    rintro rfl
    rw [hfree] at hu
    cases hu
  cases task with
  | idle | woken | entered => exact h
  | starting isp' now => exact ⟨h.1,hkeep _ _ h.2⟩
  | reading isp' now started => exact ⟨h.1,h.2.1,hkeep _ _ h.2.2⟩
  | settling isp' now read outcome => exact ⟨h.1,h.2.1,hkeep _ _ h.2.2⟩
  | waiting isp' now owner => exact ⟨h.1,hkeep _ _ h.2.1,h.2.2⟩

variable [DecidableEq τ]

theorem Inv.become (h : Inv options s) (htask : task.Sound options s.clock s.cache t) : Inv options (s.become t task) where
  entries := h.entries
  tasks := by
    intro t'
    dsimp only [System.become]
    rw [update_apply]
    split_ifs with ht
    · rw [ht]
      exact htask
    · exact h.tasks t'

theorem Inv.answer (h : Inv options s) {result : Except (ScoreError ε) (Entry S)} :
    Inv options (s.answer t now result) :=
  have hidle : Inv options (s.become t .idle) := h.become trivial
  ⟨hidle.entries,hidle.tasks⟩

variable [DecidableEq ι]

/-- A refresh that ends disturbs nobody but those who wait for it. -/
theorem Task.Sound.settle {owner : τ} {read : Read} (hne : t≠owner)
    (h : task.Sound options clock cache t) (howner : cache.inflight isp=some owner)
    (result : Except (ScoreError ε) (Entry S)) :
    (task.wake owner result).Sound options clock (cache.settle options now isp read outcome) t := by
  have hkeep : ∀ isp' u, u≠owner → cache.inflight isp'=some u →
      (cache.settle options now isp read outcome).inflight isp'=some u ∧
        (cache.settle options now isp read outcome).entries isp'=cache.entries isp' := by
    intro isp' u hu hinflight
    have hisp : isp'≠isp := by
      rintro rfl
      exact hu (Option.some.inj (hinflight.symm.trans howner))
    obtain ⟨hsame,hentries⟩ := Cache.settle_of_ne hisp outcome
    exact ⟨hsame.trans hinflight,hentries⟩
  cases task with
  | idle | woken | entered => exact h
  | starting isp' now => exact ⟨h.1,(hkeep _ _ hne h.2).1⟩
  | reading isp' now started => exact ⟨h.1,h.2.1,(hkeep _ _ hne h.2.2).1⟩
  | settling isp' now read outcome => exact ⟨h.1,h.2.1,(hkeep _ _ hne h.2.2).1⟩
  | waiting isp' now u =>
    rw [Task.wake]
    split_ifs with hu
    · trivial
    · obtain ⟨hinflight,hentries⟩ := hkeep isp' u hu h.2.1
      refine ⟨h.1,hinflight,?_⟩
      rw [hentries]
      exact h.2.2

theorem Inv.settle (h : Inv options s) {read : Read}
    (ht : s.task t = .settling isp now read outcome) (result : Except (ScoreError ε) (Entry S)) :
    Inv options ({ s with
      cache := s.cache.settle options now isp read outcome
      task := fun u => (s.task u).wake t result }.answer t now result) where
  entries := by
    intro isp' e he
    by_cases hisp : isp'=isp
    · subst hisp
      cases outcome with
      | ok scores =>
        rw [System.answer,Cache.settle] at he
        dsimp only at he
        rw [update_self] at he
        cases he
        have hsound := h.tasks t
        rw [ht] at hsound
        exact hsound.1
      | error err => exact h.entries isp' e he
    · exact h.entries isp' e ((Cache.settle_of_ne hisp outcome).2.symm.trans he)
  tasks := by
    intro u
    have howner := h.tasks t
    rw [ht] at howner
    dsimp only [System.answer]
    rw [update_apply]
    split_ifs with hu
    · trivial
    · exact (h.tasks u).settle hu howner.2.2 result

theorem Inv.handle (h : Inv options s) (e : Event ι S ε τ) : Inv options (s.handle options e) := by
  have hmoves := s.handle_moves options e
  have hsound : ∀ t task, s.task t=task → task.Sound options s.clock s.cache t := by
    rintro t _ rfl
    exact h.tasks t
  generalize s.handle options e=s' at hmoves
  cases hmoves with
  | stay e => exact h
  | pass d => exact ⟨h.entries,fun t => (h.tasks t).later d⟩
  | enter isp ht => exact h.become (Int.le_refl s.clock)
  | serve | refuse | wake | cancel => exact h.answer
  | @join t owner isp now ht hlook =>
    have hfits := s.cache.look_fits options now isp
    rw [hlook] at hfits
    exact h.become ⟨hsound _ _ ht,hfits⟩
  | @lead t isp now ht hlook =>
    have hfits := s.cache.look_fits options now isp
    rw [hlook] at hfits
    have hlead : Inv options { s with
        cache := { s.cache with inflight := update s.cache.inflight isp (some t) } } :=
      ⟨h.entries,fun u => (h.tasks u).lead hfits⟩
    exact hlead.become ⟨hsound _ _ ht,update_self _ _ _⟩
  | start ht =>
    have hstarting := hsound _ _ ht
    exact h.become ⟨hstarting.1,Int.le_refl s.clock,hstarting.2⟩
  | finish outcome ht =>
    have hreading := hsound _ _ ht
    exact h.become hreading
  | settle ht => exact h.settle ht _
end

/- When the read of a refresh that has yet to take the lock ended. -/
def Task.ended : Task ι S ε τ → Option Int
  | .settling _ _ read _ => some read.ended
  | _ => none

def Task.waitsFor [DecidableEq τ] (owner : τ) : Task ι S ε τ → Bool
  | .waiting _ _ u => u = owner
  | _ => false

section
variable [DecidableEq τ] {options : Options} {s : System ι S ε τ}

/- A caller joins a refresh only while its read is under way, and a failed refresh has a stale entry
   to give only if nobody waits for it. -/
def Prompt (options : Options) (s : System ι S ε τ) : Event ι S ε τ → Prop
  | .look t => match s.task t with
    | .entered isp now => match s.cache.look options now isp with
      | .join owner => (s.task owner).ended=none
      | _ => True
    | _ => True
  | .settle t => match s.task t with
    | .settling isp now _ (.error _) =>
      s.cache.usable options.maxStale now isp=none ∨ ∀ u, (s.task u).waitsFor t=false
    | _ => True
  | _ => True

structure Timely (options : Options) (s : System ι S ε τ) : Prop where
  waiting : ∀ t isp now owner, s.task t = .waiting isp now owner →
    ∀ d, (s.task owner).ended=some d → now ≤ d
  woken : ∀ t now e, s.task t = .woken now (.ok e) → Bounded options.maxStale now e
  answers : ∀ a∈s.answers, ∀ e, a.result = .ok e → Bounded options.maxStale a.entered e

variable {task : Task ι S ε τ} {now : Int} {result : Except (ScoreError ε) (Entry S)}

theorem Timely.become (h : Timely options s) {t : τ}
    (hwaiting : ∀ isp now owner, task = .waiting isp now owner → ∀ d, (s.task owner).ended=some d → now ≤ d)
    (hended : ∀ d, task.ended=some d → ∀ u isp now, s.task u = .waiting isp now t → now ≤ d)
    (hwoken : ∀ now e, task ≠ .woken now (.ok e)) : Timely options (s.become t task) where
  waiting := by
    intro u isp now owner hu d hd
    dsimp only [System.become] at hu hd
    rw [update_apply] at hu hd
    split_ifs at hu hd with ht howner howner
    · rw [hu] at hd
      cases hd
    · exact hwaiting isp now owner hu d hd
    · exact hended d hd u isp now (howner ▸ hu)
    · exact h.waiting u isp now owner hu d hd
  woken := by
    intro u now e hu
    dsimp only [System.become] at hu
    rw [update_apply] at hu
    split_ifs at hu
    · exact absurd hu (hwoken now e)
    · exact h.woken u now e hu
  answers := h.answers

theorem Timely.answer (h : Timely options s) {t : τ}
    (hresult : ∀ e, result = .ok e → Bounded options.maxStale now e) :
    Timely options (s.answer t now result) where
  waiting := (h.become (t := t) (by rintro _ _ _ ⟨⟩) (by rintro _ ⟨⟩) (by rintro _ _ ⟨⟩)).waiting
  woken := (h.become (t := t) (by rintro _ _ _ ⟨⟩) (by rintro _ ⟨⟩) (by rintro _ _ ⟨⟩)).woken
  answers := by
    intro a ha e he
    obtain hold | hnew := List.mem_append.mp ha
    · exact h.answers a hold e he
    · rw [List.mem_singleton.mp hnew] at he ⊢
      exact hresult e he

theorem Task.ended_wake (task : Task ι S ε τ) (owner : τ) (result : Except (ScoreError ε) (Entry S)) :
    (task.wake owner result).ended=task.ended := by
  cases task with
  | waiting isp now u =>
    rw [Task.wake]
    split_ifs <;> rfl
  | _ => rfl

theorem Task.wake_eq_waiting {owner u : τ} {isp : ι}
    (h : task.wake owner result = .waiting isp now u) : task = .waiting isp now u := by
  cases task with
  | waiting isp' now' u' =>
    rw [Task.wake] at h
    split_ifs at h
    exact h
  | _ => exact h

theorem Task.wake_eq_woken {owner : τ} {result' : Except (ScoreError ε) (Entry S)}
    (h : task.wake owner result = .woken now result') :
    task = .woken now result' ∨ (∃ isp, task = .waiting isp now owner) ∧ result'=result := by
  cases task with
  | waiting isp now' u =>
    rw [Task.wake] at h
    split_ifs at h with hu
    cases h
    exact .inr ⟨⟨isp,by rw [hu]⟩,rfl⟩
  | woken now' result'' => exact .inl h
  | _ => cases h

variable [DecidableEq ι]

theorem Timely.settle (h : Timely options s) {t : τ} {isp : ι} {read : Read} {outcome : Except ε S}
    (ht : s.task t = .settling isp now read outcome) (hprompt : Prompt options s (.settle t)) :
    Timely options { s with
      cache := s.cache.settle options now isp read outcome
      task := fun u => (s.task u).wake t (s.cache.result options now isp read outcome) } := by
  refine ⟨?_,?_,h.answers⟩
  · intro u isp' now' owner hu d hd
    dsimp only at hd
    rw [Task.ended_wake] at hd
    exact h.waiting u isp' now' owner (Task.wake_eq_waiting hu) d hd
  · intro u now' e hu
    obtain hwoken | ⟨⟨isp',hwaiting⟩,hresult⟩ := Task.wake_eq_woken hu
    · exact h.woken u now' e hwoken
    · cases outcome with
      | ok scores =>
        -- a read that succeeded was under way when the waiter entered
        have hended := h.waiting u isp' now' t hwaiting read.ended (by rw [ht]; rfl)
        cases hresult
        exact .inr hended
      | error err =>
        rw [Prompt,ht] at hprompt
        obtain hnone | hnobody := hprompt
        · rw [Cache.result,hnone] at hresult
          cases hresult
        · have hnot := hnobody u
          rw [hwaiting,Task.waitsFor] at hnot
          simp at hnot

theorem Timely.handle (h : Timely options s) (hinv : Inv options s) (hpos : 0 ≤ options.freshTtl)
    (hordered : options.freshTtl ≤ options.maxStale) {e : Event ι S ε τ} (hprompt : Prompt options s e) :
    Timely options (s.handle options e) := by
  have hmoves := s.handle_moves options e
  generalize s.handle options e=s' at hmoves
  cases hmoves with
  | stay e => exact h
  | pass d => exact ⟨h.waiting,h.woken,h.answers⟩
  | enter | start => exact h.become (by rintro _ _ _ ⟨⟩) (by rintro _ ⟨⟩) (by rintro _ _ ⟨⟩)
  | @serve t isp now e ht hlook =>
    have hfits := s.cache.look_fits options now isp
    rw [hlook] at hfits
    refine h.answer ?_
    rintro _ ⟨⟩
    exact bounded_of_age (hinv.entries isp e hfits.1) (by have := hfits.2; omega)
  | refuse | cancel => exact h.answer (by rintro _ ⟨⟩)
  | join ht hlook =>
    rw [Prompt,ht] at hprompt
    dsimp only at hprompt
    rw [hlook] at hprompt
    refine h.become ?_ (by rintro _ ⟨⟩) (by rintro _ _ ⟨⟩)
    rintro _ _ _ ⟨⟩ d hd
    rw [hprompt] at hd
    cases hd
  | @lead t isp now ht hlook =>
    have hlead : Timely options { s with
        cache := { s.cache with inflight := update s.cache.inflight isp (some t) } } :=
      ⟨h.waiting,h.woken,h.answers⟩
    exact hlead.become (by rintro _ _ _ ⟨⟩) (by rintro _ ⟨⟩) (by rintro _ _ ⟨⟩)
  | finish outcome ht =>
    refine h.become (by rintro _ _ _ ⟨⟩) ?_ (by rintro _ _ ⟨⟩)
    rintro _ ⟨⟩ u isp' now' hu
    have hsound := hinv.tasks u
    rw [hu] at hsound
    exact hsound.1
  | settle ht => exact (h.settle ht hprompt).answer fun e he => hinv.result_bounded (by omega) ht he
  | @wake t now result ht =>
    refine h.answer fun e he => ?_
    rw [he] at ht
    exact h.woken t now e ht
end

section
/- The ISP that a caller refreshes, from its entry in the inflight table to the section that ends it. -/
def Task.refreshes : Task ι S ε τ → Option ι
  | .starting isp _ | .reading isp _ _ | .settling isp _ _ _ => some isp
  | _ => none

/- The inflight table holds refreshes and nothing else. -/
def Listed (s : System ι S ε τ) : Prop :=
  ∀ isp t, s.cache.inflight isp=some t → (s.task t).refreshes=some isp

variable {options : Options} {s : System ι S ε τ} {t : τ} {isp : ι}

theorem Inv.inflight (h : Inv options s) (ht : (s.task t).refreshes=some isp) :
    s.cache.inflight isp=some t := by
  have hsound := h.tasks t
  generalize s.task t=task at ht hsound
  cases task with
  | starting =>
    cases ht
    exact hsound.2
  | reading | settling =>
    cases ht
    exact hsound.2.2
  | _ => cases ht

variable [DecidableEq τ]

theorem Task.refreshes_wake (task : Task ι S ε τ) (owner : τ) (result : Except (ScoreError ε) (Entry S)) :
    (task.wake owner result).refreshes=task.refreshes := by
  cases task with
  | waiting isp now u =>
    rw [Task.wake]
    split_ifs <;> rfl
  | _ => rfl

theorem Listed.become (h : Listed s) (task : Task ι S ε τ) (htask : task.refreshes=(s.task t).refreshes) :
    Listed (s.become t task) := by
  intro isp u hu
  dsimp only [System.become]
  rw [update_apply]
  split_ifs with hut
  · rw [htask,← hut]
    exact h isp u hu
  · exact h isp u hu

variable [DecidableEq ι] {e : Event ι S ε τ}

theorem Listed.handle (h : Listed s) (e : Event ι S ε τ) : Listed (s.handle options e) := by
  have hmoves := s.handle_moves options e
  generalize s.handle options e=s' at hmoves
  cases hmoves with
  | stay | pass => exact h
  | enter isp ht | join ht | start ht | finish outcome ht =>
    refine h.become _ ?_
    rw [ht]
    rfl
  | serve ht | refuse ht | wake ht =>
    refine h.become .idle ?_
    rw [ht]
    rfl
  | cancel err ht =>
    refine h.become .idle ?_
    obtain ⟨_,_,ht⟩ | ⟨_,ht⟩ := ht <;> rw [ht] <;> rfl
  | @lead t isp now ht hlook =>
    intro isp' u hu
    dsimp only [System.become] at hu ⊢
    rw [update_apply] at hu
    split_ifs at hu with hisp
    · cases hu
      rw [update_self,hisp,Task.refreshes]
    · have hother := h isp' u hu
      rw [update_of_ne,hother]
      rintro rfl
      rw [ht] at hother
      cases hother
  | @settle t isp now read outcome ht =>
    intro isp' u hu
    have hisp : isp'≠isp := by
      rintro rfl
      cases outcome <;> exact absurd ((update_self _ _ _).symm.trans hu) (by rintro ⟨⟩)
    have hother := h isp' u ((Cache.settle_of_ne hisp outcome).1.symm.trans hu)
    dsimp only [System.answer]
    rw [update_of_ne,Task.refreshes_wake,hother]
    rintro rfl
    rw [ht] at hother
    exact hisp (Option.some.inj hother).symm

def Event.caller : Event ι S ε τ → Option τ
  | .pass _ => none
  | .readScores t _ | .look t | .start t | .finish t _ | .settle t | .wake t | .cancel t _ => some t

/-- Of the events of the others, only the end of a refresh concerns a caller. -/
theorem task_handle (options : Options) (he : e.caller≠some t) :
    (s.handle options e).task t=s.task t ∨ ∃ owner isp now read outcome, e = .settle owner ∧
      s.task owner = .settling isp now read outcome ∧
      (s.handle options e).task t=(s.task t).wake owner (s.cache.result options now isp read outcome) := by
  have hne : ∀ u, e.caller=some u → t≠u := fun u hu htu => he (htu ▸ hu)
  have hmoves := s.handle_moves options e
  generalize s.handle options e=s' at hmoves
  cases hmoves with
  | stay | pass => exact .inl rfl
  | settle ht => exact .inr ⟨_,_,_,_,_,rfl,ht,update_of_ne (hne _ rfl) _ _⟩
  | enter | serve | refuse | join | lead | start | finish | wake | cancel =>
    exact .inl (update_of_ne (hne _ rfl) _ _)

/- The call of t returns at this event. -/
def System.Returns (options : Options) (s : System ι S ε τ) (e : Event ι S ε τ) (t : τ) (a : Answer S ε) : Prop :=
  e.caller=some t ∧ (s.handle options e).answers=s.answers++[a]

/- Where a call returns, and what. -/
def Task.Gives (options : Options) (c : Cache ι S τ) (e : Event ι S ε τ) (t : τ) (a : Answer S ε) :
    Task ι S ε τ → Prop
  | .entered isp now => (∃ entry, a=⟨now,.ok entry⟩) ∨
    c.look options now isp = .refuse ∧ a=⟨now,.error .circuitOpen⟩
  | .settling isp now read outcome => a=⟨now,c.result options now isp read outcome⟩
  | .waiting _ now _ => ∃ err, e = .cancel t err ∧ a=⟨now,.error (.context err)⟩
  | .woken now result => a=⟨now,result⟩ ∨ ∃ err, e = .cancel t err ∧ a=⟨now,.error (.context err)⟩
  | _ => False

theorem System.Returns.gives {a : Answer S ε} (h : s.Returns options e t a) :
    (s.task t).Gives options s.cache e t a := by
  obtain ⟨hcaller,hanswers⟩ := h
  have hmoves := s.handle_moves options e
  generalize s.handle options e=s' at hmoves hanswers
  cases hmoves with
  | stay | pass | enter | join | lead | start | finish => simp [System.become] at hanswers
  | serve ht | refuse ht | settle ht | wake ht =>
    cases hcaller
    cases List.append_cancel_left hanswers
    rw [ht]
    simp_all [Task.Gives]
  | cancel err ht =>
    cases hcaller
    cases List.append_cancel_left hanswers
    obtain ⟨_,_,ht⟩ | ⟨_,ht⟩ := ht <;> rw [ht]
    · exact ⟨err,rfl,rfl⟩
    · exact .inr ⟨err,rfl,rfl⟩
end

section
/- With the callers whose context is cancelled: the reader fails, and a caller leaves the select without
   a result, only under such a context. -/
def Event.Allowed (cancelled : τ → Bool) : Event ι S ε τ → Prop
  | .finish t (.error _) | .cancel t _ => cancelled t=true
  | _ => True

def Event.Reads : Event ι S ε τ → Prop
  | .finish _ (.error _) => False
  | _ => True

/- No caller is on its way to an error, other than through its own context. -/
def Task.Calm : Task ι S ε τ → Prop
  | .entered _ now => 0 ≤ now
  | .settling _ _ _ outcome => ∃ scores, outcome = .ok scores
  | .woken _ result => ∃ e, result = .ok e
  | _ => True

structure Calm (s : System ι S ε τ) : Prop where
  closed : s.cache.openUntil=0
  clock : 0 ≤ s.clock
  tasks : ∀ t, (s.task t).Calm

variable [DecidableEq τ] {options : Options} {s : System ι S ε τ}

theorem Task.Calm.wake {task : Task ι S ε τ} (h : task.Calm) (owner : τ) {result : Except (ScoreError ε) (Entry S)}
    (hresult : ∃ e, result = .ok e) : (task.wake owner result).Calm := by
  cases task with
  | waiting isp now u =>
    rw [Task.wake]
    split_ifs
    · exact hresult
    · trivial
  | _ => exact h

variable [DecidableEq ι] {e : Event ι S ε τ}

theorem Calm.handle (h : Calm s) (hreads : e.Reads) : Calm (s.handle options e) := by
  have htasks : ∀ t task, task.Calm → ∀ u, (update s.task t task u).Calm := fun t task htask =>
    (forall_update_iff s.task fun _ task => task.Calm).mpr ⟨htask,fun u _ => h.tasks u⟩
  have hmoves := s.handle_moves options e
  generalize s.handle options e=s' at hmoves
  cases hmoves with
  | stay => exact h
  | pass d => exact ⟨h.closed,Int.le_trans h.clock (by dsimp only; omega),h.tasks⟩
  | enter => exact ⟨h.closed,h.clock,htasks _ _ h.clock⟩
  | join | lead | start | serve | refuse | wake | cancel => exact ⟨h.closed,h.clock,htasks _ _ trivial⟩
  | finish outcome ht =>
    refine ⟨h.closed,h.clock,htasks _ _ ?_⟩
    cases outcome with
    | ok scores => exact ⟨scores,rfl⟩
    | error err => exact hreads.elim
  | @settle t isp now read outcome ht =>
    obtain ⟨scores,rfl⟩ : Task.Calm (.settling isp now read outcome) := ht ▸ h.tasks t
    refine ⟨rfl,h.clock,(forall_update_iff _ fun _ (task : Task ι S ε τ) => task.Calm).mpr ⟨trivial,fun u _ => ?_⟩⟩
    exact (h.tasks u).wake t ⟨_,rfl⟩

/-- In such a state only a caller whose own context is cancelled is given an error. -/
theorem Calm.returns_error (h : Calm s) {t : τ} {a : Answer S ε} {err : ScoreError ε}
    (hreturns : s.Returns options e t a) (herr : a.result = .error err) : ∃ err, e = .cancel t err := by
  have hgives := hreturns.gives
  have hcalm := h.tasks t
  generalize s.task t=task at hgives hcalm
  cases task with
  | entered isp now =>
    obtain ⟨entry,rfl⟩ | ⟨hlook,rfl⟩ := hgives
    · cases herr
    · have hclosed : ¬ now < s.cache.openUntil := by
        rw [h.closed]
        exact Int.not_lt.mpr hcalm
      rw [Cache.look,if_neg hclosed] at hlook
      repeat' split at hlook
      all_goals cases hlook
  | settling isp now read outcome =>
    obtain ⟨scores,rfl⟩ := hcalm
    rw [hgives] at herr
    cases herr
  | waiting isp now owner =>
    obtain ⟨err,he,_⟩ := hgives
    exact ⟨err,he⟩
  | woken now result =>
    obtain ⟨entry,rfl⟩ := hcalm
    obtain rfl | ⟨err,he,_⟩ := hgives
    · cases herr
    · exact ⟨err,he⟩
  | _ => exact hgives.elim
end

section
variable [DecidableEq ι] [DecidableEq τ]

/-- Scores are from a read that began at most MaxStale before their caller entered, or that was
running then, as long as the FreshTTL does not exceed MaxStale, no caller joins a refresh whose read
is over, and no caller that waits is handed the stale entry of a refresh that failed. -/
theorem scores_bounded (o : Options) (hordered : o.normalize.freshTtl ≤ o.normalize.maxStale) (clock : Int)
    {events : List (Event ι S ε τ)} {s : System ι S ε τ}
    (hrun : Run (Guarded (Prompt o.normalize) (System.handle o.normalize)) (.new clock) events s) :
    ∀ a∈s.answers, ∀ e, a.result = .ok e → Bounded o.normalize.maxStale a.entered e := by
  have hpos : 0 ≤ o.normalize.freshTtl := Int.le_of_lt o.normalize_freshTtl_pos
  have hstart : Timely o.normalize (System.new clock : System ι S ε τ) :=
    ⟨by rintro _ _ _ _ ⟨⟩,by rintro _ _ _ ⟨⟩,by rintro _ ⟨⟩⟩
  have hstep : ∀ (s : System ι S ε τ) (e : Event ι S ε τ) (t : System ι S ε τ),
      Inv o.normalize s ∧ Timely o.normalize s →
        Guarded (Prompt o.normalize) (System.handle o.normalize) s e t →
          Inv o.normalize t ∧ Timely o.normalize t := by
    rintro s e _ ⟨hinv,htimely⟩ ⟨hprompt,rfl⟩
    exact ⟨hinv.handle e,htimely.handle hinv hpos hordered hprompt⟩
  exact (hrun.invariant ⟨inv_new clock,hstart⟩ hstep).2.answers

/-- At most one caller refreshes an ISP, and the inflight table holds the ISPs that are refreshed and
nothing else. A caller that waits is handed the result of the refresh that it found, when that
refresh ends, and returns this result or the error of its own context. -/
theorem single_flight (options : Options) (clock : Int) (events : List (Event ι S ε τ)) :
    let s := events.foldl (System.handle options) (.new clock)
    Exclusive Task.refreshes s.task ∧
    (∀ isp t, s.cache.inflight isp=some t ↔ (s.task t).refreshes=some isp) ∧
    (∀ t isp now owner, s.task t = .waiting isp now owner → (s.task owner).refreshes=some isp ∧
      (∀ e, e.caller≠some t → (s.handle options e).task t = .waiting isp now owner ∨
        ∃ began read outcome, e = .settle owner ∧ s.task owner = .settling isp began read outcome ∧
          (s.handle options e).task t = .woken now (s.cache.result options began isp read outcome)) ∧
      ∀ e a, s.Returns options e t a → ∃ err, e = .cancel t err ∧ a=⟨now,.error (.context err)⟩) ∧
    ∀ t now result, s.task t = .woken now result →
      (∀ e, e.caller≠some t → (s.handle options e).task t = .woken now result) ∧
      ∀ e a, s.Returns options e t a →
        a=⟨now,result⟩ ∨ ∃ err, e = .cancel t err ∧ a=⟨now,.error (.context err)⟩ := by
  intro s
  have hrun := run_foldl (System.handle options) events (.new clock)
  have hstep : ∀ (s : System ι S ε τ) e s', Inv options s ∧ Listed s → s'=s.handle options e →
      Inv options s' ∧ Listed s' := by
    rintro s e _ ⟨hinv,hlisted⟩ rfl
    exact ⟨hinv.handle e,hlisted.handle e⟩
  obtain ⟨hinv,hlisted⟩ := hrun.invariant ⟨inv_new clock,by rintro _ _ ⟨⟩⟩ hstep
  refine ⟨?_,fun isp t => ⟨hlisted isp t,hinv.inflight⟩,fun t isp now owner ht => ?_,fun t now result ht => ?_⟩
  · intro t u isp ht hu
    exact Option.some.inj ((hinv.inflight ht).symm.trans (hinv.inflight hu))
  · have hwaiting := hinv.tasks t
    rw [ht] at hwaiting
    have howner := hlisted isp owner hwaiting.2.1
    refine ⟨howner,fun e he => ?_,fun e a hreturns => ?_⟩
    · obtain hsame | ⟨u,isp',began,read,outcome,he,hu,htask⟩ := task_handle options he
      · exact .inl (hsame.trans ht)
      · rw [ht,Task.wake] at htask
        split_ifs at htask with hsame
        · subst hsame
          rw [hu] at howner
          cases howner
          exact .inr ⟨began,read,outcome,he,hu,htask⟩
        · exact .inl htask
    · have hgives := hreturns.gives
      rwa [ht] at hgives
  · refine ⟨fun e he => ?_,fun e a hreturns => ?_⟩
    · obtain hsame | ⟨u,_,_,_,_,_,_,htask⟩ := task_handle options he
      · exact hsame.trans ht
      · rwa [ht] at htask
    · have hgives := hreturns.gives
      rwa [ht] at hgives

/-- The cancellation of a caller affects no other: as long as no read of the underlying reader fails, the
circuit stays closed, and a caller is given an error only if its own context is cancelled. -/
theorem cancellation_contained (options : Options) {clock : Int} (hclock : 0 ≤ clock) (cancelled : τ → Bool)
    {events : List (Event ι S ε τ)} (hevents : ∀ e∈events, e.Allowed cancelled ∧ e.Reads) :
    let s := events.foldl (System.handle options) (.new clock)
    s.cache.openUntil=0 ∧ ∀ e t a err, e.Allowed cancelled → s.Returns options e t a →
      a.result = .error err → cancelled t=true := by
  intro s
  have hrun := (run_foldl (System.handle options) events (.new clock)).labels hevents
  have hcalm : Calm s := hrun.invariant ⟨rfl,hclock,fun _ => trivial⟩
    fun _ e _ h ⟨hok,ht⟩ => ht ▸ h.handle hok.2
  refine ⟨hcalm.closed,fun e t a err hallowed hreturns herr => ?_⟩
  obtain ⟨err,rfl⟩ := hcalm.returns_error hreturns herr
  exact hallowed
end

/- The second caller joins the refresh of the first, and a minute passes before the read ends. -/
def joined : List (Event Unit Nat Unit Bool) :=
  [.readScores true (),.look true,.start true,.pass 5,.readScores false (),.look false,.pass 60000000000,
    .finish true (.ok 7),.settle true,.wake false]

theorem scores_bounded_joined :
    (joined.foldl (System.handle defaultOptions.normalize) (.new 0)).answers =
        [⟨0,.ok ⟨7,0,⟨0,60000000005⟩⟩⟩,⟨5,.ok ⟨7,0,⟨0,60000000005⟩⟩⟩] ∧
      Bounded defaultOptions.normalize.maxStale 5 (⟨7,0,⟨0,60000000005⟩⟩ : Entry Nat) := by
  have hrun : Run (Guarded (Prompt defaultOptions.normalize) (System.handle defaultOptions.normalize))
      (.new 0) joined (joined.foldl (System.handle defaultOptions.normalize) (.new 0)) :=
    .cons ⟨trivial,rfl⟩ <| .cons ⟨trivial,rfl⟩ <| .cons ⟨trivial,rfl⟩ <| .cons ⟨trivial,rfl⟩ <|
      .cons ⟨trivial,rfl⟩ <| .cons ⟨rfl,rfl⟩ <| .cons ⟨trivial,rfl⟩ <| .cons ⟨trivial,rfl⟩ <|
        .cons ⟨trivial,rfl⟩ <| .cons ⟨trivial,rfl⟩ <| .refl _
  have hanswers : (joined.foldl (System.handle defaultOptions.normalize) (.new 0)).answers =
      [⟨0,.ok ⟨7,0,⟨0,60000000005⟩⟩⟩,⟨5,.ok ⟨7,0,⟨0,60000000005⟩⟩⟩] := rfl
  exact ⟨hanswers,scores_bounded defaultOptions (by decide) 0 hrun ⟨5,.ok ⟨7,0,⟨0,60000000005⟩⟩⟩
    (by rw [hanswers]; exact List.mem_cons_of_mem _ List.mem_cons_self) _ rfl⟩

/- A refresh that begins when the entry is just MaxStale old fails; the caller that came later and
   waited for it is given this entry. -/
def handedOn : List (Event Unit Nat Unit Bool) :=
  [.readScores true (),.look true,.start true,.finish true (.ok 7),.settle true,.pass 300000000000,
    .readScores true (),.look true,.start true,.pass 1,.readScores false (),.look false,
    .finish true (.error ()),.settle true,.wake false]

/- One caller, and options whose FreshTTL of ten minutes is above the MaxStale that replaces theirs. -/
def longFresh : Options := ⟨600000000000,60000000000,15000000000⟩

def sixMinutes : List (Event Unit Nat Unit Unit) :=
  [.readScores () (),.look (),.start (),.finish () (.ok 7),.settle (),.pass 360000000000,
    .readScores () (),.look ()]

theorem scores_outdated :
    (¬ ∀ (clock : Int) (events : List (Event Unit Nat Unit Bool)),
      ∀ a∈(events.foldl (System.handle defaultOptions.normalize) (.new clock)).answers,
        ∀ e, a.result = .ok e → Bounded defaultOptions.normalize.maxStale a.entered e) ∧
    ¬ ∀ (o : Options) (clock : Int) (events : List (Event Unit Nat Unit Unit)),
      ∀ a∈(events.foldl (System.handle o.normalize) (.new clock)).answers,
        ∀ e, a.result = .ok e → Bounded o.normalize.maxStale a.entered e := by
  constructor
  · intro h
    have hanswer : (⟨300000000001,.ok ⟨7,0,⟨0,0⟩⟩⟩ : Answer Nat Unit) ∈
        (handedOn.foldl (System.handle defaultOptions.normalize) (.new 0)).answers :=
      List.mem_cons_of_mem _ (List.mem_cons_of_mem _ List.mem_cons_self)
    exact absurd (h 0 handedOn _ hanswer _ rfl) (by decide)
  · intro h
    have hanswer : (⟨360000000000,.ok ⟨7,0,⟨0,0⟩⟩⟩ : Answer Nat Unit) ∈
        (sixMinutes.foldl (System.handle longFresh.normalize) (.new 0)).answers :=
      List.mem_cons_of_mem _ List.mem_cons_self
    exact absurd (h longFresh 0 sixMinutes _ hanswer _ rfl) (by decide)

/- The second caller waits for the refresh of the first, and the third asks for another ISP. -/
def sharing : List (Event Bool Nat Unit (Fin 3)) :=
  [.readScores 0 true,.look 0,.start 0,.readScores 1 true,.look 1]

theorem cancellation_contained_waiter :
    let s := sharing.foldl (System.handle defaultOptions.normalize) (.new 0)
    s.Returns defaultOptions.normalize (.cancel 1 ()) 1 ⟨0,.error (.context ())⟩ ∧ s.cache.openUntil=0 ∧
      ∀ e t a err, e.Allowed (· = 1) → s.Returns defaultOptions.normalize e t a → a.result = .error err →
        decide (t=1)=true :=
  ⟨⟨rfl,rfl⟩,cancellation_contained defaultOptions.normalize (Int.le_refl 0) _ (by simp [sharing,Event.Allowed,Event.Reads])⟩

/- The context of the first caller is cancelled while the reader works for it. -/
def abandoned : List (Event Bool Nat Unit (Fin 3)) :=
  sharing++[.finish 0 (.error ()),.settle 0,.readScores 2 false]

theorem cancelled_refresher_fails_others :
    let s := abandoned.foldl (System.handle defaultOptions.normalize) (.new 0)
    (∀ e∈abandoned, e.Allowed (· = 0)) ∧ s.cache.openUntil≠0 ∧
      s.Returns defaultOptions.normalize (.wake 1) 1 ⟨0,.error (.reader ())⟩ ∧
      s.Returns defaultOptions.normalize (.look 2) 2 ⟨0,.error .circuitOpen⟩ :=
  ⟨by simp [abandoned,sharing,Event.Allowed],by decide,⟨rfl,rfl⟩,rfl,rfl⟩

end AetherX.ScoreCache
