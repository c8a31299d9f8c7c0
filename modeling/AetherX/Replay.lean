import Mathlib.Data.Finset.Card
import Mathlib.Data.List.AList
import Mathlib.Algebra.Group.Int.Defs

/-! The replay guard: a map from nonces to expiry times that forgets expired entries,
against the full history of what was accepted and when. -/
namespace AetherX.Replay
open List

/- The one constructor of the crate's error type that the guard returns. -/
inductive AntiForgeryError where
  | replay
  deriving DecidableEq

structure ReplayGuard where
  seen : AList fun _ : String => Int64
  ttlMs : Int64

def ReplayGuard.new (ttlMs : Int64) : ReplayGuard := ⟨∅,max ttlMs 1⟩

def retain (keep : Int64 → Bool) (seen : AList fun _ : String => Int64) :
    AList fun _ : String => Int64 :=
  ⟨seen.entries.filter fun entry => keep entry.2,seen.nodupKeys.sublist filter_sublist⟩

def ReplayGuard.prune (g : ReplayGuard) (nowUnixMs : Int64) : ReplayGuard :=
  { g with seen := retain (fun expiry => expiry > nowUnixMs) g.seen }

def ReplayGuard.checkAndRecord (g : ReplayGuard) (nonce : String) (nowUnixMs : Int64) :
    ReplayGuard × Except AntiForgeryError Unit :=
  let g := g.prune nowUnixMs
  let record := ({ g with seen := g.seen.insert nonce (nowUnixMs+g.ttlMs) }, .ok ())
  match g.seen.lookup nonce with
  | some expiry => if expiry > nowUnixMs then (g, .error .replay) else record
  | none => record

def ReplayGuard.tracked (g : ReplayGuard) : Nat := g.seen.keys.length

theorem lookup_retain (keep : Int64 → Bool) (seen : AList fun _ : String => Int64)
    (nonce : String) (expiry : Int64) :
    (retain keep seen).lookup nonce=some expiry ↔
      seen.lookup nonce=some expiry ∧ keep expiry=true := by
  have hkept := AList.mem_lookup_iff (a := nonce) (b := expiry) (s := retain keep seen)
  have hseen := AList.mem_lookup_iff (a := nonce) (b := expiry) (s := seen)
  rw [Option.mem_def] at hkept hseen
  rw [hkept,hseen]
  exact mem_filter

structure Call where
  nonce : String
  now : Int64
  deriving DecidableEq

structure Session where
  guard : ReplayGuard
  accepted : List Call

def Session.next (s : Session) (call : Call) : Session :=
  match s.guard.checkAndRecord call.nonce call.now with
  | (g, .ok ()) => ⟨g,s.accepted++[call]⟩
  | (g, .error _) => ⟨g,s.accepted⟩

def session (ttlMs : Int64) (calls : List Call) : Session :=
  calls.foldl Session.next ⟨ReplayGuard.new ttlMs,[]⟩

def lifetime (ttlMs : Int64) : Int := max ttlMs.toInt 1

def Live (ttlMs : Int64) (now : Int) (call : Call) : Prop :=
  now < call.now.toInt+lifetime ttlMs

instance (ttlMs : Int64) (now : Int) (call : Call) : Decidable (Live ttlMs now call) :=
  inferInstanceAs (Decidable (_<_))

def Fits (ttlMs : Int64) (call : Call) : Prop := call.now.toInt+lifetime ttlMs<2^63

theorem toInt_lifetime (ttlMs : Int64) : (max ttlMs 1).toInt=lifetime ttlMs := by
  have hone : (1 : Int64).toInt=1 := rfl
  have hmax : max ttlMs 1=if ttlMs≤1 then 1 else ttlMs := rfl
  rw [lifetime,hmax]
  split_ifs with h
  · rw [Int64.le_iff_toInt_le,hone] at h
    omega
  · rw [Int64.le_iff_toInt_le,hone] at h
    omega

variable {ttlMs : Int64}

theorem toInt_expiry {call : Call} (h : Fits ttlMs call) :
    (call.now+max ttlMs 1).toInt=call.now.toInt+lifetime ttlMs := by
  have hlo := Int64.le_toInt call.now
  have hpos : 1 ≤ lifetime ttlMs := le_max_right _ _
  rw [Fits] at h
  rw [Int64.toInt_add,toInt_lifetime]
  exact Int.bmod_eq_of_le (by omega) (by omega)

/-- At any time the map holds exactly the expiry times that are still to come. -/
structure Tracks (ttlMs : Int64) (now : Int) (s : Session) : Prop where
  ttl : s.guard.ttlMs=max ttlMs 1
  lookup : ∀ nonce expiry, s.guard.seen.lookup nonce=some expiry ↔
    now < expiry.toInt ∧ ∃ call∈s.accepted, call.nonce=nonce ∧
      expiry.toInt=call.now.toInt+lifetime ttlMs

section
variable {ttlMs : Int64} {now : Int} {s : Session}

theorem tracks_new (ttlMs : Int64) (now : Int) :
    Tracks ttlMs now ⟨ReplayGuard.new ttlMs,[]⟩ := by
  refine ⟨rfl,fun nonce expiry => ?_⟩
  simp [ReplayGuard.new]

theorem Tracks.prune (h : Tracks ttlMs now s) {later : Int64} (hle : now ≤ later.toInt) :
    Tracks ttlMs later.toInt ⟨s.guard.prune later,s.accepted⟩ := by
  refine ⟨h.ttl,fun nonce expiry => ?_⟩
  rw [ReplayGuard.prune,lookup_retain,h.lookup,decide_eq_true_iff,gt_iff_lt,
    Int64.lt_iff_toInt_lt]
  constructor
  · intro hkept
    exact ⟨hkept.2,hkept.1.2⟩
  · intro hlive
    exact ⟨⟨by omega,hlive.2⟩,hlive.1⟩

/- A nonce is in the map exactly when one of its acceptances is still live. -/
theorem Tracks.mem_keys (h : Tracks ttlMs now s)
    (hfit : ∀ call∈s.accepted, Fits ttlMs call) (nonce : String) :
    nonce∈s.guard.seen.keys ↔
      ∃ call∈s.accepted, call.nonce=nonce ∧ Live ttlMs now call := by
  rw [← AList.mem_keys,← AList.lookup_isSome,Option.isSome_iff_exists]
  constructor
  · intro hsome
    obtain ⟨expiry,he⟩ := hsome
    obtain ⟨hlt,call,hmem,hnonce,hexp⟩ := (h.lookup nonce expiry).mp he
    exact ⟨call,hmem,hnonce,by rw [Live]; omega⟩
  · intro hlive
    obtain ⟨call,hmem,hnonce,hlt⟩ := hlive
    have hexp := toInt_expiry (hfit call hmem)
    rw [Live,← hexp] at hlt
    exact ⟨_,(h.lookup nonce _).mpr ⟨hlt,call,hmem,hnonce,hexp⟩⟩

/-- Everything a call does: it is refused when an acceptance of its nonce is live, and then
nothing but pruning happens; otherwise its expiry is recorded. -/
theorem checkAndRecord_cases (h : Tracks ttlMs now s)
    (hfit : ∀ call∈s.accepted, Fits ttlMs call) (call : Call) (hle : now ≤ call.now.toInt) :
    ((∃ c∈s.accepted, c.nonce=call.nonce ∧ Live ttlMs call.now.toInt c) ∧
      s.guard.checkAndRecord call.nonce call.now=(s.guard.prune call.now, .error .replay)) ∨
    ((¬ ∃ c∈s.accepted, c.nonce=call.nonce ∧ Live ttlMs call.now.toInt c) ∧
      s.guard.checkAndRecord call.nonce call.now =
        ({ s.guard.prune call.now with
            seen := (s.guard.prune call.now).seen.insert call.nonce (call.now+max ttlMs 1) },
          .ok ())) := by
  have hp := h.prune hle
  have hmem := hp.mem_keys hfit call.nonce
  rw [← AList.mem_keys,← AList.lookup_isSome] at hmem
  rw [← hmem]
  cases hl : (s.guard.prune call.now).seen.lookup call.nonce with
  | some expiry =>
    have hlt := ((hp.lookup call.nonce expiry).mp hl).1
    refine .inl ⟨by simp,?_⟩
    simp only [ReplayGuard.checkAndRecord,hl]
    rw [if_pos (Int64.lt_iff_toInt_lt.mpr hlt)]
  | none =>
    refine .inr ⟨by simp,?_⟩
    have httl : (s.guard.prune call.now).ttlMs=max ttlMs 1 := h.ttl
    simp only [ReplayGuard.checkAndRecord,hl,httl]

theorem Tracks.insert (h : Tracks ttlMs now s) (call : Call) (hnow : call.now.toInt=now)
    (hcall : Fits ttlMs call)
    (hfree : ¬ ∃ c∈s.accepted, c.nonce=call.nonce ∧ Live ttlMs now c) :
    Tracks ttlMs now ⟨{ s.guard with
      seen := s.guard.seen.insert call.nonce (call.now+max ttlMs 1) },
        s.accepted++[call]⟩ := by
  have hpos : 1 ≤ lifetime ttlMs := le_max_right _ _
  have hexp := toInt_expiry hcall
  refine ⟨h.ttl,fun nonce expiry => ?_⟩
  simp only [mem_append,mem_singleton]
  by_cases hn : nonce=call.nonce
  · subst hn
    rw [AList.lookup_insert,Option.some.injEq]
    constructor
    · intro he
      subst he
      exact ⟨by omega,call,.inr rfl,rfl,hexp⟩
    · intro hlive
      obtain ⟨hlt,c,hc,hnonce,he⟩ := hlive
      cases hc with
      | inl hold => exact absurd ⟨c,hold,hnonce,by rw [Live]; omega⟩ hfree
      | inr hnew =>
        subst hnew
        exact Int64.toInt_inj.mp (hexp.trans he.symm)
  · rw [AList.lookup_insert_ne hn,h.lookup]
    constructor
    · intro hlive
      obtain ⟨hlt,c,hc,hrest⟩ := hlive
      exact ⟨hlt,c,.inl hc,hrest⟩
    · intro hlive
      obtain ⟨hlt,c,hc,hnonce,he⟩ := hlive
      cases hc with
      | inl hold => exact ⟨hlt,c,hold,hnonce,he⟩
      | inr hnew =>
        subst hnew
        exact absurd hnonce.symm hn
end

/-- What holds after any calls, the last of them at the given time. -/
structure Exact (ttlMs : Int64) (now : Int) (s : Session) : Prop where
  tracks : Tracks ttlMs now s
  fits : ∀ call∈s.accepted, Fits ttlMs call
  apart : s.accepted.Pairwise fun a b =>
    a.nonce=b.nonce → a.now.toInt+lifetime ttlMs ≤ b.now.toInt

theorem Exact.next {now : Int} {s : Session} (h : Exact ttlMs now s) (call : Call)
    (hle : now ≤ call.now.toInt) (hcall : Fits ttlMs call) :
    Exact ttlMs call.now.toInt (s.next call) := by
  have hp := h.tracks.prune hle
  cases checkAndRecord_cases h.tracks h.fits call hle with
  | inl hrefused =>
    rw [Session.next,hrefused.2]
    exact ⟨hp,h.fits,h.apart⟩
  | inr haccepted =>
    obtain ⟨hfree,hcheck⟩ := haccepted
    rw [Session.next,hcheck]
    refine ⟨hp.insert call rfl hcall hfree,?_,?_⟩
    · intro c hc
      cases mem_append.mp hc with
      | inl hold => exact h.fits c hold
      | inr hnew => rwa [mem_singleton.mp hnew]
    · rw [pairwise_append]
      refine ⟨h.apart,pairwise_singleton _ _,?_⟩
      intro a ha b hb hnonce
      rw [mem_singleton.mp hb] at hnonce ⊢
      have hdead : ¬ Live ttlMs call.now.toInt a := fun hlive => hfree ⟨a,ha,hnonce,hlive⟩
      rw [Live] at hdead
      omega

/- The induction runs over the calls from the left; the invariant at an earlier time is enough
   for the next call. -/
theorem Exact.foldl {now : Int} {s : Session} (h : Exact ttlMs now s) (calls : List Call)
    (hsorted : calls.Pairwise fun a b => a.now ≤ b.now)
    (hstart : ∀ call∈calls, now ≤ call.now.toInt) (hfit : ∀ call∈calls, Fits ttlMs call)
    (later : Int64) (hlater : now ≤ later.toInt) (hlast : ∀ call∈calls, call.now ≤ later) :
    ∃ last, last ≤ later.toInt ∧ Exact ttlMs last (calls.foldl Session.next s) := by
  induction calls generalizing now s with
  | nil => exact ⟨now,hlater,h⟩
  | cons call calls ih =>
    rw [pairwise_cons] at hsorted
    rw [forall_mem_cons] at hstart hfit hlast
    have hnext := h.next call hstart.1 hfit.1
    exact ih hnext hsorted.2 (fun c hc => Int64.le_iff_toInt_le.mp (hsorted.1 c hc)) hfit.2
      (Int64.le_iff_toInt_le.mp hlast.1) hlast.2

theorem Exact.tracked {now : Int} {s : Session} (h : Exact ttlMs now s) :
    s.guard.tracked =
      ((s.accepted.filter (Live ttlMs now)).map Call.nonce).toFinset.card := by
  have hkeys : s.guard.seen.keys.toFinset =
      ((s.accepted.filter (Live ttlMs now)).map Call.nonce).toFinset := by
    ext nonce
    rw [mem_toFinset,mem_toFinset,h.tracks.mem_keys h.fits,mem_map]
    constructor
    · intro hlive
      obtain ⟨call,hmem,hnonce,hlt⟩ := hlive
      exact ⟨call,mem_filter.mpr ⟨hmem,decide_eq_true hlt⟩,hnonce⟩
    · intro hmap
      obtain ⟨call,hmem,hnonce⟩ := hmap
      obtain ⟨hacc,hlt⟩ := mem_filter.mp hmem
      exact ⟨call,hacc,hnonce,of_decide_eq_true hlt⟩
  rw [← hkeys,toFinset_card_of_nodup s.guard.seen.keys_nodup]
  rfl

/-- Any calls at nondecreasing times and then one more: it is refused exactly when its nonce
was accepted less than a lifetime ago, acceptances of one nonce stay a lifetime apart, and the
guard tracks as many nonces as were accepted within the last lifetime. -/
theorem checkAndRecord_exact (ttlMs : Int64) (calls : List Call) (call : Call)
    (hsorted : (calls++[call]).Pairwise fun a b => a.now ≤ b.now)
    (hfit : ∀ c∈calls++[call], c.now.toInt+max ttlMs.toInt 1<2^63) :
    ((((session ttlMs calls).guard.checkAndRecord call.nonce call.now).2 = .error .replay) ↔
      ∃ c∈(session ttlMs calls).accepted, c.nonce=call.nonce ∧
        call.now.toInt < c.now.toInt+max ttlMs.toInt 1) ∧
    ((session ttlMs (calls++[call])).accepted.Pairwise fun a b =>
      a.nonce=b.nonce → a.now.toInt+ttlMs.toInt ≤ b.now.toInt) ∧
    (session ttlMs (calls++[call])).guard.tracked =
      (((session ttlMs (calls++[call])).accepted.filter fun c =>
        decide (call.now.toInt < c.now.toInt+max ttlMs.toInt 1)).map Call.nonce).toFinset.card := by
  rw [pairwise_append] at hsorted
  have hbefore : ∀ c∈calls, c.now ≤ call.now :=
    fun c hc => hsorted.2.2 c hc call (mem_singleton_self _)
  have hstart : Exact ttlMs (-2^63) ⟨ReplayGuard.new ttlMs,[]⟩ :=
    ⟨tracks_new ttlMs _,by simp,.nil⟩
  obtain ⟨last,hle,hs⟩ := hstart.foldl calls hsorted.1 (fun c _ => Int64.le_toInt c.now)
    (fun c hc => hfit c (mem_append_left _ hc)) call.now (Int64.le_toInt _) hbefore
  have hnext := hs.next call hle (hfit call (mem_append_right _ (mem_singleton_self _)))
  have hsession : session ttlMs (calls++[call])=(session ttlMs calls).next call := by
    rw [session,foldl_append]
    rfl
  rw [hsession]
  refine ⟨?_,?_,hnext.tracked⟩
  · cases checkAndRecord_cases hs.tracks hs.fits call hle with
    | inl hrefused => exact iff_of_true (congrArg Prod.snd hrefused.2) hrefused.1
    | inr haccepted =>
      refine iff_of_false ?_ haccepted.1
      intro herror
      rw [session,haccepted.2] at herror
      cases herror
  · refine hnext.apart.imp ?_
    intro a b hapart hnonce
    have hmax : ttlMs.toInt ≤ lifetime ttlMs := le_max_left _ _
    have := hapart hnonce
    omega

/- A replay inside the window and one just after it. -/
theorem checkAndRecord_exact_window :
    ((session 1000 [⟨"n1",0⟩]).guard.checkAndRecord "n1" 999).2 = .error .replay ∧
      (session 1000 [⟨"n1",0⟩,⟨"n1",1000⟩]).guard.tracked=1 := by
  have hin := checkAndRecord_exact 1000 [⟨"n1",0⟩] ⟨"n1",999⟩ (by decide) (by decide)
  have hafter := checkAndRecord_exact 1000 [⟨"n1",0⟩] ⟨"n1",1000⟩ (by decide) (by decide)
  exact ⟨hin.1.mpr ⟨⟨"n1",0⟩,by decide,rfl,by decide⟩,hafter.2.2.trans (by decide)⟩

end AetherX.Replay
