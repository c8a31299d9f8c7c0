import Mathlib.Data.List.ReduceOption
import AetherX.CheckedWord
import AetherX.CutPoints
import AetherX.Machine

/-! Where a ClientHello is split, and the fragments that are sent. Offsets and lengths are 32-bit
numbers that no operation here takes out of range: a draw gives at most 65, a count at most 256. -/
namespace AetherX.Fragmentation
open CutPoints CheckedWord

def lcgMul : UInt64 := 6364136223846793005
def lcgAdd : UInt64 := 1442695040888963407

structure FragmentationPolicy where
  enabled : Bool
  splitOffsets : Vector (Option Nat) 4
  maxSegments : UInt8

structure SplitPlan where
  offsets : List Nat

/- The generator: a state is advanced, and its high bits are the number drawn. -/
def advance (state : UInt64) : UInt64 := state*lcgMul+lcgAdd

def drawn (state : UInt64) : Nat := (state >>> 33).toUInt32.toNat

def scatter (region : Nat) : Nat → UInt64 → List Nat
  | 0, _ => []
  | n+1, state => (1+drawn (advance state)%max region 1)::scatter region n (advance state)

/- The offsets of adaptive mode, as they are drawn: the first number drawn says how many. -/
def scattered (clienthelloLen : Nat) (maxSegments : UInt8) (probeSeed : UInt64) : List Nat :=
  let maxSeg := max maxSegments.toNat 2
  let state := advance (advance probeSeed)
  let n := 2+drawn state%(max maxSeg 2-1)
  scatter (min clienthelloLen 64) (n-1) state

def plan (clienthelloLen : Nat) (policy : FragmentationPolicy) (probeSeed : UInt64) : SplitPlan :=
  if !policy.enabled then ⟨[]⟩
  else
    let fixed := policy.splitOffsets.toList.reduceOption.filter (Inside clienthelloLen ·)
    if fixed≠[] then ⟨sortDistinct fixed⟩
    else
      let offsets := scattered clienthelloLen policy.maxSegments probeSeed
      ⟨sortDistinct (offsets.filter (Inside clienthelloLen ·))⟩

structure FragMapEntry where
  splitOffsets : List Nat
  enabled : Bool

structure EbpfMorphEngine where
  fragMap : UInt64 → Option FragMapEntry

/- One turn of the loop over the offsets: what has been pushed, and where the last cut was. -/
def cutAt (ch : List UInt8) (done : List (List UInt8) × Nat) (off : Nat) :
    Except Panic (List (List UInt8) × Nat) := do
  let fragment ← slice ch done.2 off
  return (done.1++[fragment], off)

def sliceAt (ch : List UInt8) (done : List (List UInt8) × Nat) (offsets : List Nat) :
    Except Panic (List (List UInt8)) := do
  let (fragments, last) ← offsets.foldlM (cutAt ch) done
  let rest ← slice ch last ch.length
  return fragments++[rest]

def EbpfMorphEngine.fragmentClienthello (engine : EbpfMorphEngine) (flowKey : UInt64)
    (ch : List UInt8) : Except Panic (List (List UInt8)) :=
  match engine.fragMap flowKey with
  | none => .ok [ch]
  | some cfg =>
    if !cfg.enabled || cfg.splitOffsets.isEmpty then .ok [ch]
    else sliceAt ch ([], 0) ((sortDistinct cfg.splitOffsets).filter (Inside ch.length ·))

section
variable {len : Nat} {policy : FragmentationPolicy} {seed : UInt64}

def FragmentationPolicy.explicit (policy : FragmentationPolicy) : List Nat :=
  policy.splitOffsets.toList.reduceOption

theorem scatter_length (region n : Nat) (state : UInt64) : (scatter region n state).length=n := by
  induction n generalizing state with
  | zero => rfl
  | succ n ih => rw [scatter,List.length_cons,ih]

theorem scattered_length_le (len : Nat) (maxSegments : UInt8) (seed : UInt64) :
    (scattered len maxSegments seed).length ≤ max 2 maxSegments.toNat-1 := by
  have hcount := Nat.mod_lt (drawn (advance (advance seed)))
    (show 0 < max (max maxSegments.toNat 2) 2-1 by omega)
  rw [scattered,scatter_length]
  omega

theorem plan_disabled (h : policy.enabled=false) : (plan len policy seed).offsets=[] := by
  rw [plan,h]
  rfl

theorem plan_explicit (h : policy.enabled=true) (hset : ∃ o∈policy.explicit, Inside len o) :
    (plan len policy seed).offsets=(Cut.ofList len policy.explicit).positions := by
  obtain ⟨o,ho,hinside⟩ := hset
  have hne : policy.splitOffsets.toList.reduceOption.filter (Inside len ·)≠[] :=
    List.ne_nil_of_mem (List.mem_filter.mpr ⟨ho,decide_eq_true hinside⟩)
  simp only [plan,h,Bool.not_true,Bool.false_eq_true,if_false,if_pos hne]
  rfl

theorem plan_adaptive (h : policy.enabled=true) (hset : ¬ ∃ o∈policy.explicit, Inside len o) :
    (plan len policy seed).offsets =
      (Cut.ofList len (scattered len policy.maxSegments seed)).positions := by
  have hnil : policy.splitOffsets.toList.reduceOption.filter (Inside len ·)=[] :=
    List.filter_eq_nil_iff.mpr fun o ho hinside => hset ⟨o,ho,of_decide_eq_true hinside⟩
  simp only [plan,h,Bool.not_true,Bool.false_eq_true,if_false,hnil,ne_eq,not_true]
  rfl

theorem plan_cut (len : Nat) (policy : FragmentationPolicy) (seed : UInt64) :
    ∃ c : Cut len, (plan len policy seed).offsets=c.positions := by
  cases h : policy.enabled with
  | false => exact ⟨⟨[],List.Pairwise.nil,by simp⟩,plan_disabled h⟩
  | true =>
    by_cases hset : ∃ o∈policy.explicit, Inside len o
    · exact ⟨_,plan_explicit h hset⟩
    · exact ⟨_,plan_adaptive h hset⟩

theorem plan_length_le (hset : ¬ (policy.enabled=true ∧ ∃ o∈policy.explicit, Inside len o)) :
    (plan len policy seed).offsets.length ≤ max 2 policy.maxSegments.toNat-1 := by
  cases h : policy.enabled with
  | false =>
    rw [plan_disabled h]
    exact Nat.zero_le _
  | true =>
    rw [plan_adaptive h fun hsome => hset ⟨h,hsome⟩]
    exact (sortDistinct_length_le _).trans ((List.length_filter_le _ _).trans
      (scattered_length_le len policy.maxSegments seed))
end

section
variable {ch : List UInt8}

/-- The loop pushes the pieces one after the other and never slices out of range. -/
theorem sliceAt_eq {offsets : List Nat} {last : Nat} (done : List (List UInt8))
    (h : (last::offsets).Pairwise (· < ·)) (hle : ∀ o∈last::offsets, o ≤ ch.length) :
    sliceAt ch (done, last) offsets = .ok (done++pieces ch last offsets) := by
  induction offsets generalizing last done with
  | nil =>
    have hrest : slice ch last ch.length = .ok (ch.drop last) := by
      rw [slice_of_le (hle last List.mem_cons_self) le_rfl,List.take_of_length_le (by simp)]
    rw [sliceAt,List.foldlM_nil,pieces]
    simp only [pure_bind,hrest]
    rfl
  | cons o offsets ih =>
    obtain ⟨hlast,hrest⟩ := List.pairwise_cons.mp h
    have htail : ∀ q∈o::offsets, q ≤ ch.length := fun q hq => hle q (List.mem_cons_of_mem _ hq)
    have hcut : cutAt ch (done, last) o =
        .ok (done++[(ch.drop last).take (o-last)], o) := by
      rw [cutAt,slice_of_le (hlast o List.mem_cons_self).le (htail o List.mem_cons_self)]
      rfl
    have hstep := ih (done++[(ch.drop last).take (o-last)]) hrest htail
    rw [List.append_assoc] at hstep
    rw [sliceAt,List.foldlM_cons,hcut]
    exact hstep

theorem sliceAt_cut (c : Cut ch.length) :
    sliceAt ch ([], 0) c.positions = .ok (pieces ch 0 c.positions) := by
  refine sliceAt_eq [] c.from_start fun o ho => ?_
  rcases List.mem_cons.mp ho with rfl | ho
  · exact Nat.zero_le _
  · exact (c.inside o ho).2.le

theorem fragmentClienthello_eq (engine : EbpfMorphEngine) (flowKey : UInt64) (ch : List UInt8) :
    ∃ c : Cut ch.length,
      engine.fragmentClienthello flowKey ch = .ok (pieces ch 0 c.positions) := by
  have hwhole : ∃ c : Cut ch.length, Except.ok [ch]=(Except.ok (pieces ch 0 c.positions) :
      Except Panic _) := ⟨⟨[],List.Pairwise.nil,by simp⟩,rfl⟩
  rw [EbpfMorphEngine.fragmentClienthello]
  cases engine.fragMap flowKey with
  | none => exact hwhole
  | some cfg =>
    simp only
    split_ifs with hoff
    · exact hwhole
    · rw [filter_sortDistinct]
      exact ⟨_,sliceAt_cut (Cut.ofList ch.length cfg.splitOffsets)⟩
end

/-- Every plan is a strictly increasing list of offsets strictly inside the message: those of the
policy that are inside if it is enabled and has any, and otherwise fewer than its segments. What is
sent puts the payload together again, with no empty fragment unless the payload is empty. -/
theorem split_plans_lossless :
    (∀ (len : Nat) (policy : FragmentationPolicy) (seed : UInt64),
      (plan len policy seed).offsets.Pairwise (· < ·) ∧
      (∀ o∈(plan len policy seed).offsets, 0 < o ∧ o < len) ∧
      ((policy.enabled=true ∧ ∃ o∈policy.explicit, Inside len o) →
        (plan len policy seed).offsets={o∈policy.explicit.toFinset | Inside len o}.sort (· ≤ ·)) ∧
      (¬ (policy.enabled=true ∧ ∃ o∈policy.explicit, Inside len o) →
        (plan len policy seed).offsets.length ≤ max 2 policy.maxSegments.toNat-1)) ∧
    ∀ (engine : EbpfMorphEngine) (flowKey : UInt64) (ch : List UInt8), ∃ fragments,
      engine.fragmentClienthello flowKey ch = .ok fragments ∧ fragments.flatten=ch ∧
        (ch≠[] → ∀ fragment∈fragments, fragment≠[]) := by
  refine ⟨fun len policy seed => ?_,fun engine flowKey ch => ?_⟩
  · obtain ⟨c,hc⟩ := plan_cut len policy seed
    refine ⟨hc ▸ c.increasing,hc ▸ c.inside,fun hset => ?_,plan_length_le⟩
    rw [plan_explicit hset.1 hset.2,Cut.ofList_positions]
  · obtain ⟨c,hc⟩ := fragmentClienthello_eq engine flowKey ch
    exact ⟨_,hc,c.flatten_pieces,c.piece_ne_nil⟩

theorem split_plans_lossless_override :
    (plan 512 ⟨true,#v[some 60,some 10,none,some 600],4⟩ 0).offsets =
      {o∈[60,10,600].toFinset | Inside 512 o}.sort (· ≤ ·) ∧
    (plan 517 ⟨true,#v[none,none,none,none],5⟩ 1).offsets.length≤4 ∧
    [22,3,1]≠([] : List UInt8) ∧
    ∃ fragments, EbpfMorphEngine.fragmentClienthello ⟨fun _ => some ⟨[9,2,0,2,1],true⟩⟩ 7
      [22,3,1] = .ok fragments ∧ ∀ fragment∈fragments, fragment≠[] := by
  have hfragments := split_plans_lossless.2 ⟨fun _ => some ⟨[9,2,0,2,1],true⟩⟩ 7 [22,3,1]
  obtain ⟨fragments,hsent,-,hne⟩ := hfragments
  exact ⟨(split_plans_lossless.1 512 ⟨true,#v[some 60,some 10,none,some 600],4⟩ 0).2.2.1
      ⟨rfl,60,by decide,by decide⟩,
    (split_plans_lossless.1 517 ⟨true,#v[none,none,none,none],5⟩ 1).2.2.2 (by decide),
    by decide,fragments,hsent,hne (by decide)⟩

/-- A policy that is switched off splits nothing, whatever offsets it sets. -/
theorem disabled_policy_splits_nothing :
    (∃ o∈(FragmentationPolicy.mk false #v[some 10,none,none,none] 4).explicit, Inside 512 o) ∧
    (plan 512 ⟨false,#v[some 10,none,none,none],4⟩ 1).offsets=[] ∧
    (plan 512 ⟨false,#v[some 10,none,none,none],4⟩ 1).offsets ≠
      {o∈(FragmentationPolicy.mk false #v[some 10,none,none,none] 4).explicit.toFinset |
        Inside 512 o}.sort (· ≤ ·) := by
  rw [← Cut.ofList_positions]
  decide +kernel

namespace Proto
structure FragmentationPolicy where
  enabled : Bool
  splitOffsets : List Nat
  maxSegments : UInt32

def FragmentationPolicy.default : FragmentationPolicy := ⟨false,[],0⟩

structure Policy where
  protocolId : String
  fragmentation : Option FragmentationPolicy
  fallbackChain : List String
  revision : UInt64

end Proto

structure Policy where
  protocolId : String
  fragmentation : FragmentationPolicy
  fallbackChain : List String
  revision : UInt64

def policyFromProto (p : Proto.Policy) : Policy :=
  let frag := p.fragmentation.getD .default
  let offsets := (frag.splitOffsets.zipIdx.take 4).foldl
    (fun offsets (o, i) => offsets.setIfInBounds i (some o)) (Vector.replicate 4 none)
  { protocolId := p.protocolId
    fragmentation :=
      { enabled := frag.enabled
        splitOffsets := offsets
        maxSegments := frag.maxSegments.toUInt8 }
    fallbackChain := p.fallbackChain
    revision := p.revision }

section
variable {p : Proto.Policy} {frag : Proto.FragmentationPolicy} {len : Nat}

/-- The array of a policy has room for four offsets, and the others are dropped. -/
theorem policyFromProto_explicit (hfrag : p.fragmentation=some frag) :
    (policyFromProto p).fragmentation.explicit=frag.splitOffsets.take 4 := by
  rw [policyFromProto,hfrag]
  match frag.splitOffsets with
  | [] => rfl
  | [_] => rfl
  | [_,_] => rfl
  | [_,_,_] => rfl
  | _::_::_::_::_ => rfl

theorem policyFromProto_enabled (hfrag : p.fragmentation=some frag) :
    (policyFromProto p).fragmentation.enabled=frag.enabled := by
  rw [policyFromProto,hfrag]
  rfl

/- Whatever the number of segments, a first draw of zero gives two, and the next draw the offset. -/
theorem scattered_of_drawn {seed : UInt64} (h : drawn (advance (advance seed))=0) (len : Nat)
    (maxSegments : UInt8) : scattered len maxSegments seed =
      [1+drawn (advance (advance (advance seed)))%max (min len 64) 1] := by
  simp [scattered,h,scatter]

theorem scattered_one (len : Nat) (maxSegments : UInt8) :
    scattered len maxSegments 17232582302960645351=[1] := by
  have hnext : drawn (advance (advance (advance 17232582302960645351)))=0 := by decide
  rw [scattered_of_drawn (by decide),hnext,Nat.zero_mod]

theorem scattered_two (h : 2 ≤ len) (maxSegments : UInt8) :
    scattered len maxSegments 1606691539340879238=[2] := by
  have hnext : drawn (advance (advance (advance 1606691539340879238)))=1 := by decide
  rw [scattered_of_drawn (by decide),hnext,Nat.mod_eq_of_lt (by omega)]
end

/-- A pushed policy is carried out, whatever the seed, exactly if its offsets inside the message are
among the first four. -/
theorem pushed_offsets_honoured_iff (p : Proto.Policy) (frag : Proto.FragmentationPolicy)
    (hfrag : p.fragmentation=some frag) (henabled : frag.enabled=true) (len : Nat)
    (hinside : ∃ o∈frag.splitOffsets, Inside len o) :
    (∀ seed, (plan len (policyFromProto p).fragmentation seed).offsets =
        {o∈frag.splitOffsets.toFinset | Inside len o}.sort (· ≤ ·)) ↔
      ∀ o∈frag.splitOffsets, Inside len o → o∈frag.splitOffsets.take 4 := by
  have hon : (policyFromProto p).fragmentation.enabled=true :=
    (policyFromProto_enabled hfrag).trans henabled
  have hexplicit := policyFromProto_explicit hfrag
  rw [← Cut.ofList_positions]
  by_cases hset : ∃ o∈frag.splitOffsets.take 4, Inside len o
  · simp only [plan_explicit hon (hexplicit ▸ hset),hexplicit,Cut.ofList_eq_iff,forall_const]
    constructor
    · intro h o ho hin
      exact (h o hin).mpr ho
    · intro h o hin
      exact ⟨List.mem_of_mem_take,fun ho => h o ho hin⟩
  · -- the plan is drawn, so the offsets cannot be those of the policy for both seeds
    obtain ⟨o,ho,hin⟩ := hinside
    have hlen : 2 ≤ len := Nat.lt_of_le_of_lt hin.1 hin.2
    simp only [plan_adaptive hon (hexplicit ▸ hset),Cut.ofList_eq_iff]
    refine iff_of_false (fun h => ?_) fun h => hset ⟨o,h o ho hin,hin⟩
    have hfirst := h 17232582302960645351 1 ⟨Nat.one_pos,hlen⟩
    have hsecond := h 1606691539340879238 1 ⟨Nat.one_pos,hlen⟩
    rw [scattered_one] at hfirst
    rw [scattered_two hlen] at hsecond
    exact absurd (hsecond.mpr (hfirst.mp (List.mem_singleton_self 1))) (by decide)

def pushed (offsets : List Nat) : Proto.Policy := ⟨"vless",some ⟨true,offsets,4⟩,[],1⟩

theorem pushed_offsets_honoured_iff_unsorted :
    (plan 512 (policyFromProto (pushed [50,10,50,30,10])).fragmentation 0).offsets =
      {o∈[50,10,50,30,10].toFinset | Inside 512 o}.sort (· ≤ ·) :=
  (pushed_offsets_honoured_iff (pushed [50,10,50,30,10]) ⟨true,[50,10,50,30,10],4⟩ rfl rfl
    512 ⟨50,by decide,by decide⟩).mpr (by decide) 0

/-- The fifth offset is dropped, and if it is the only one inside, the plan is a random one. -/
theorem pushed_fifth_offset_dropped :
    (plan 512 (policyFromProto (pushed [10,20,30,40,50])).fragmentation 0).offsets =
      [10,20,30,40] ∧
    (plan 512 (policyFromProto (pushed [10,20,30,40,50])).fragmentation 0).offsets ≠
      {o∈[10,20,30,40,50].toFinset | Inside 512 o}.sort (· ≤ ·) ∧
    (plan 512 (policyFromProto (pushed [600,700,800,900,50])).fragmentation 0).offsets ≠
      {o∈[600,700,800,900,50].toFinset | Inside 512 o}.sort (· ≤ ·) := by
  rw [← Cut.ofList_positions,← Cut.ofList_positions]
  decide +kernel

end AetherX.Fragmentation
