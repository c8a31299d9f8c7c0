import Mathlib.Algebra.Order.Group.Abs
import Mathlib.Algebra.Order.Group.Int
import AetherX.Intel
import AetherX.StableSort

/-! How far one peer can move a score, and what a ranking may do to a list of candidates. -/
namespace AetherX.Intel
open List
open Supervisor (Instant Duration)

section
variable {l : List Observation} {pid : String}

def without (pid : String) (l : List Observation) : List Observation :=
  l.filter fun o => o.peerId≠some pid

def influence (l : List Observation) (pid : String) : Int :=
  ((heardFrom l pid).countP fun o => o.outcome = .works) -
    2*((heardFrom l pid).countP fun o => o.outcome = .blocked)

variable (l : List Observation)

theorem influence_bounds (pid : String) : -6 ≤ influence l pid ∧ influence l pid≤3 := by
  have hlength : (heardFrom l pid).length≤3 := length_take_le _ _
  have hworks : (heardFrom l pid).countP (fun o => o.outcome = .works)≤_ :=
    countP_le_length
  have hblocked : (heardFrom l pid).countP (fun o => o.outcome = .blocked)≤_ :=
    countP_le_length
  rw [influence]
  omega

theorem heardFrom_without (pid other : String) :
    heardFrom (without pid l) other=if other=pid then [] else heardFrom l other := by
  rw [heardFrom,without,filter_filter]
  split_ifs with hother
  · have hnone : (l.filter fun o => decide (o.peerId=some other) && decide (o.peerId≠some pid)) =
        [] := by
      refine filter_eq_nil_iff.mpr fun o _ => ?_
      simp [hother]
    rw [hnone]
    rfl
  · rw [heardFrom]
    congr 1
    refine filter_congr fun o _ => ?_
    by_cases hpeer : o.peerId=some other
    · simp [hpeer,hother]
    · simp [hpeer]

theorem firsthand_without (pid : String) (outcome : Outcome) :
    firsthand (without pid l) outcome=firsthand l outcome := by
  rw [firsthand,firsthand,without,countP_filter]
  refine countP_congr fun o _ => ?_
  cases hpeer : o.peerId <;> simp [Observation.isLocal,hpeer]

theorem heardIn_without {among : Finset String} (hpid : pid∈among) (l : List Observation)
    (outcome : Outcome) :
    heardIn among l outcome=heardIn among (without pid l) outcome +
      (heardFrom l pid).countP fun o => o.outcome = outcome := by
  have hterm : ∀ q, (heardFrom l q).countP (fun o => o.outcome = outcome) =
      (heardFrom (without pid l) q).countP (fun o => o.outcome = outcome) +
        if q=pid then (heardFrom l pid).countP (fun o => o.outcome = outcome) else 0 := by
    intro q
    rw [heardFrom_without]
    by_cases hq : q=pid
    · simp [hq]
    · simp [hq]
  simp only [heardIn]
  rw [Finset.sum_congr rfl fun q _ => hterm q,Finset.sum_add_distrib,Finset.sum_ite_eq',
    if_pos hpid]

theorem peers_without_subset (pid : String) (l : List Observation) :
    peers (without pid l) ⊆ peers l := by
  intro q hq
  rw [peers,mem_toFinset] at hq ⊢
  exact (filter_sublist.filterMap _).subset hq

/-- The reports of a peer add its influence to the score, and nothing else. -/
theorem tally_without (pid : String) :
    (l.foldl Tally.add .empty).score =
      ((without pid l).foldl Tally.add .empty).score+influence l pid := by
  have hsub : peers l ⊆ insert pid (peers l) := Finset.subset_insert _ _
  have hpid : pid∈insert pid (peers l) := Finset.mem_insert_self _ _
  rw [(gathered l).score _ hsub,
    (gathered (without pid l)).score _ ((peers_without_subset pid l).trans hsub),
    firsthand_without,firsthand_without,heardIn_without hpid l .works,
    heardIn_without hpid l .blocked,influence]
  push_cast
  omega

theorem relevant_without (observations : List Observation) (pid transport : String) (now : Instant) :
    without pid (relevant observations transport now) =
      relevant (without pid observations) transport now := by
  rw [without,relevant,relevant,without,filter_filter,filter_filter]
  exact filter_congr fun o _ => Bool.and_comm _ _

/-- Stores that differ only in the reports of one peer have scores that are close. -/
theorem score_close {observations changed : List Observation} {pid : String}
    (h : without pid changed=without pid observations) (transport : String) (now : Instant) :
    |(scoreFrom changed transport now).score-(scoreFrom observations transport now).score| ≤
      maxReportsPerPeer*(peerSuccessWeight+peerFailureWeight) := by
  have hchanged := tally_without (relevant changed transport now) pid
  have hbefore := tally_without (relevant observations transport now) pid
  rw [relevant_without] at hchanged hbefore
  rw [h] at hchanged
  have hbounds := influence_bounds (relevant changed transport now) pid
  have hbounds' := influence_bounds (relevant observations transport now) pid
  have hweight : (maxReportsPerPeer : Int)*(peerSuccessWeight+peerFailureWeight)=9 := rfl
  have hscore : ∀ l, (scoreFrom l transport now).score =
      ((relevant l transport now).foldl Tally.add .empty).score := fun _ => rfl
  rw [hweight,abs_le,hscore,hscore,hchanged,hbefore]
  constructor <;> omega

/-- What is stale when gossip comes in counts for nothing later. -/
theorem relevant_prune {before now : Instant} (hle : before ≤ now) (observations : List Observation)
    (transport : String) :
    relevant (DomesticIntel.prune observations before) transport now =
      relevant observations transport now := by
  rw [relevant,relevant,DomesticIntel.prune,filter_filter]
  refine filter_congr fun o _ => ?_
  have hfresh : o.isFresh now=true → o.isFresh before=true := by
    simp only [Observation.isFresh,decide_eq_true_eq]
    exact fun h => (Nat.sub_le_sub_right hle _).trans h
  cases hnow : o.isFresh now with
  | true => simp [hfresh hnow]
  | false => simp

theorem without_append_of_peer {gossip : List Observation} (hpeer : ∀ o∈gossip, o.peerId=some pid)
    (l : List Observation) : without pid (l++gossip)=without pid l := by
  have hnone : without pid gossip=[] :=
    filter_eq_nil_iff.mpr fun o ho => by simp [hpeer o ho]
  rw [without,filter_append]
  exact (congrArg (without pid l ++ ·) hnone).trans (append_nil _)
end

section
variable (d : DomesticIntel) (now : Instant)

def scoreOf (c : String) : Int := (d.score c now).score

def scored (candidates : List String) : List (Nat × Int × String) :=
  candidates.zipIdx.map fun (c, i) => (i, scoreOf d now c, c)

/- The order of the sort: a higher score first, the place in the list where scores agree. -/
abbrev Ahead (a b : Nat × Int × String) : Prop := b.2.1 < a.2.1 ∨ b.2.1=a.2.1 ∧ a.1 ≤ b.1

instance : Std.Total Ahead := ⟨fun a b => by simp only [Ahead]; omega⟩

instance : IsTrans (Nat × Int × String) Ahead :=
  ⟨fun a b c hab hbc => by simp only [Ahead] at *; omega⟩

variable (candidates : List String)

theorem prioritize_eq :
    d.prioritize candidates now =
      ((scored d now candidates).insertionSort Ahead).map fun s => s.2.2 := rfl

theorem score_of_mem_scored {candidates : List String} {s : Nat × Int × String}
    (h : s∈scored d now candidates) : s.2.1=scoreOf d now s.2.2 := by
  obtain ⟨p,-,rfl⟩ := mem_map.mp h
  rfl

theorem scored_names : (scored d now candidates).map (fun s => s.2.2)=candidates := by
  rw [scored,map_map]
  exact zipIdx_map_fst 0 candidates

theorem prioritize_pairwise :
    (d.prioritize candidates now).Pairwise fun a b => scoreOf d now b ≤ scoreOf d now a := by
  rw [prioritize_eq,pairwise_map]
  refine (pairwise_insertionSort Ahead (scored d now candidates)).imp_of_mem ?_
  intro a b ha hb hab
  rw [← score_of_mem_scored d now ((mem_insertionSort _).mp ha),
    ← score_of_mem_scored d now ((mem_insertionSort _).mp hb)]
  rcases hab with hlt | ⟨heq,-⟩
  · exact hlt.le
  · exact heq.le

theorem scored_indices : (scored d now candidates).Pairwise fun a b => a.1 < b.1 := by
  have hsnd : (candidates.zipIdx.map Prod.snd).Pairwise (· < ·) := by
    rw [zipIdx_map_snd]
    exact pairwise_lt_range'
  rw [scored,pairwise_map]
  exact pairwise_map.mp hsnd

theorem prioritize_filter (v : Int) :
    (d.prioritize candidates now).filter (fun c => scoreOf d now c=v) =
      candidates.filter fun c => scoreOf d now c=v := by
  have hplaces : ((scored d now candidates).filter fun s => scoreOf d now s.2.2=v).Pairwise
      Ahead := by
    refine ((scored_indices d now candidates).filter _).imp_of_mem ?_
    intro a b ha hb hlt
    obtain ⟨ha,hav⟩ := mem_filter.mp ha
    obtain ⟨hb,hbv⟩ := mem_filter.mp hb
    rw [decide_eq_true_eq,← score_of_mem_scored d now ha] at hav
    rw [decide_eq_true_eq,← score_of_mem_scored d now hb] at hbv
    exact Or.inr ⟨hbv.trans hav.symm,hlt.le⟩
  have hsorted := congrArg (List.map fun s => s.2.2) (StableSort.filter_insertionSort hplaces)
  rw [prioritize_eq,filter_map]
  refine hsorted.trans ?_
  conv_rhs => rw [← scored_names d now candidates,filter_map]
  rfl

theorem scoreOf_of_unheard {c : String} (h : relevant d.observations c now=[]) :
    scoreOf d now c=0 := by
  rw [scoreOf,DomesticIntel.score,scoreFrom,h]
  rfl

theorem prioritize_unheard {candidates : List String}
    (h : ∀ c∈candidates, relevant d.observations c now=[]) :
    d.prioritize candidates now=candidates := by
  have hzero : ∀ c∈candidates, scoreOf d now c=0 := fun c hc =>
    scoreOf_of_unheard d now (h c hc)
  have hkept := prioritize_filter d now candidates 0
  rwa [filter_eq_self.mpr fun c hc => decide_eq_true (hzero c hc),
    filter_eq_self.mpr fun c hc =>
      decide_eq_true (hzero c ((d.prioritize_perm candidates now).mem_iff.mp hc))] at hkept
end

/-- A peer moves a score by at most what three reports can, however many more it sends and wherever
they stand in the store, and a ranking only reorders: a higher score comes first, equal scores keep
their order, and candidates nothing fresh is known of stay as they were. -/
theorem peer_influence_bounded (d : DomesticIntel) (now : Instant) :
    (∀ (pid : String) (observations : List Observation),
      without pid observations=without pid d.observations → ∀ transport,
        |(scoreFrom observations transport now).score-(d.score transport now).score| ≤
          maxReportsPerPeer*(peerSuccessWeight+peerFailureWeight)) ∧
    (∀ (pid : String) (gossip : List Observation), (∀ o∈gossip, o.peerId=some pid) →
      ∀ received ≤ now, ∀ transport,
        |((d.ingestGossip gossip received).1.score transport now).score -
            (d.score transport now).score| ≤
          maxReportsPerPeer*(peerSuccessWeight+peerFailureWeight)) ∧
    ∀ candidates : List String,
      (d.prioritize candidates now).Perm candidates ∧
      ((d.prioritize candidates now).Pairwise fun a b =>
        (d.score b now).score≤(d.score a now).score) ∧
      (∀ v, ((d.prioritize candidates now).filter fun c => (d.score c now).score=v) =
        candidates.filter fun c => (d.score c now).score=v) ∧
      ((∀ c∈candidates, ∀ o∈d.observations, o.transport=c → o.isFresh now=false) →
        d.prioritize candidates now=candidates) := by
  refine ⟨fun pid observations h transport => score_close h transport now,
    fun pid gossip hpeer received hreceived transport => ?_,
    fun candidates => ⟨d.prioritize_perm candidates now,prioritize_pairwise d now candidates,
      prioritize_filter d now candidates,fun hstale => prioritize_unheard d now fun c hc => ?_⟩⟩
  · have haccepted : ∀ o∈gossip.filter (fun o => !d.refuses received o), o.peerId=some pid :=
      fun o ho => hpeer o (mem_of_mem_filter ho)
    have hclose := score_close (without_append_of_peer haccepted d.observations) transport now
    rw [scoreFrom,← relevant_prune hreceived] at hclose
    exact hclose
  · refine filter_eq_nil_iff.mpr fun o ho => ?_
    simp only [Bool.and_eq_true,decide_eq_true_eq,not_and]
    intro htransport
    simp [hstale c hc o ho htransport]

theorem peer_influence_bounded_flood :
    ((((DomesticIntel.new "device-A").observeLocal "obfs4" .works 0).ingestGossip
      (List.replicate 5 (report "peer-1" .blocked)) 0).1.score "obfs4" 0).score=4 ∧
    |((((DomesticIntel.new "device-A").observeLocal "obfs4" .works 0).ingestGossip
        (List.replicate 5 (report "peer-1" .blocked)) 0).1.score "obfs4" 0).score -
      (((DomesticIntel.new "device-A").observeLocal "obfs4" .works 0).score "obfs4" 0).score| ≤
        maxReportsPerPeer*(peerSuccessWeight+peerFailureWeight) ∧
    ((DomesticIntel.new "device-A").observeLocal "tor" .works 0).prioritize
      ["obfs4", "snowflake", "meek"] 0=["obfs4", "snowflake", "meek"] :=
  ⟨by decide +kernel,
    (peer_influence_bounded ((DomesticIntel.new "device-A").observeLocal "obfs4" .works 0) 0).2.1
      "peer-1" _ (fun o ho => by rw [eq_of_mem_replicate ho]; rfl) 0 le_rfl "obfs4",
    ((peer_influence_bounded ((DomesticIntel.new "device-A").observeLocal "tor" .works 0) 0).2.2
      ["obfs4", "snowflake", "meek"]).2.2.2 (by decide +kernel)⟩

end AetherX.Intel
