import Mathlib.Algebra.Group.Int.Defs
import Mathlib.Algebra.Group.Nat.Defs
import Mathlib.Data.List.AList
import Mathlib.Data.List.Induction
import Mathlib.Order.MinMax

/-! The rationed pool of egress nodes: who may have one, how many in a rolling window, and which.
One call reads the clock three times, and the map of the nodes comes in any order. -/
namespace AetherX.Distribution
open List

/- Times and durations are nanoseconds. A Duration is a 64-bit integer, and the difference of two
   times stops at its ends. -/
def minDuration : Int := -2^63
def maxDuration : Int := 2^63-1

def wrap (n : Int) : Int := Int.bmod n (2^64)

def since (now t : Int) : Int := max minDuration (min maxDuration (now-t))

def day : Int := 24*3600000000000

structure Config where
  maxN : Int
  windowDays : Int
  newIdentityAgeDays : Int
  dampenedN : Int

def defaultConfig : Config := ⟨2,30,7,0⟩

def FitsDuration (days : Int) : Prop := minDuration ≤ days*day ∧ days*day ≤ maxDuration

instance (days : Int) : Decidable (FitsDuration days) := inferInstanceAs (Decidable (_ ∧ _))

structure Node where
  id : String
  address : String
  protocol : String
  isBurned : Bool
  burnedAt : Int
  createdAt : Int
  deriving DecidableEq

structure Allocation where
  identityId : String
  nodeId : String
  allocatedAt : Int
  deriving DecidableEq

inductive DistributionError where
  | rateLimited
  | identityTooNew
  | noAvailableNodes
  | nodeNotFound
  | identityNotFound
  deriving DecidableEq

structure Service where
  config : Config
  nodes : AList fun _ : String => Node
  allocations : List Allocation
  identities : AList fun _ : String => Int
  rotationQ : List String

/- What one request reads off the clock: for the age, for the window and for the allocation. -/
structure Clock where
  aged : Int
  counted : Int
  allocated : Int

namespace Service
def new (cfg : Config) : Service := ⟨cfg,∅,[],∅,[]⟩

def addNode (s : Service) (node : Node) : Service :=
  { s with nodes := s.nodes.insert node.id { node with isBurned := false } }

def registerIdentity (s : Service) (identityId : String) (createdAt : Int) : Service :=
  { s with identities := s.identities.insert identityId createdAt }

def visited (s : Service) (order : List Node) : List Node :=
  let nodes := s.nodes.entries.map Sigma.snd
  if order.Perm nodes then order else nodes

def effectiveN (cfg : Config) (now createdAt : Int) : Except DistributionError Int :=
  if since now createdAt < wrap (cfg.newIdentityAgeDays*day) then
    if cfg.dampenedN≤0 then .error .identityTooNew else .ok cfg.dampenedN
  else .ok cfg.maxN

def recent (s : Service) (identityId : String) (now : Int) : List Allocation :=
  let windowStart := now+wrap (-s.config.windowDays*day)
  s.allocations.filter fun a => a.identityId=identityId ∧ windowStart < a.allocatedAt

def requestRationedNode (s : Service) (identityId : String) (clock : Clock) (order : List Node) :
    Service × Except DistributionError Node :=
  match s.identities.lookup identityId with
  | none => (s, .error .identityNotFound)
  | some createdAt =>
    match effectiveN s.config clock.aged createdAt with
    | .error e => (s, .error e)
    | .ok cap =>
      let recent := s.recent identityId clock.counted
      if cap ≤ recent.length then (s, .error .rateLimited)
      else
        let available := fun node : Node => !node.isBurned && !(recent.map Allocation.nodeId).contains node.id
        match (s.visited order).find? available with
        | none => (s, .error .noAvailableNodes)
        | some node =>
          ({ s with allocations := s.allocations++[⟨identityId,node.id,clock.allocated⟩] }, .ok node)

def reportBurned (s : Service) (nodeId : String) (now : Int) : Service × Except DistributionError Unit :=
  match s.nodes.lookup nodeId with
  | none => (s, .error .nodeNotFound)
  | some node =>
    ({ s with
        nodes := s.nodes.insert nodeId { node with isBurned := true, burnedAt := now }
        rotationQ := s.rotationQ++[nodeId] }, .ok ())

end Service

inductive Event where
  | addNode (node : Node)
  | registerIdentity (identityId : String) (createdAt : Int)
  | reportBurned (nodeId : String) (now : Int)
  | request (identityId : String) (clock : Clock) (order : List Node)

def Event.readings : Event → List Int
  | .addNode _ => []
  | .registerIdentity _ _ => []
  | .reportBurned _ now => [now]
  | .request _ clock _ => [clock.aged,clock.counted,clock.allocated]

def Ordered (events : List Event) : Prop := (events.flatMap Event.readings).Pairwise (· ≤ ·)

instance (events : List Event) : Decidable (Ordered events) :=
  inferInstanceAs (Decidable (List.Pairwise _ _))

structure Watch where
  service : Service
  received : List Allocation

namespace Watch
def start (cfg : Config) : Watch := ⟨.new cfg,[]⟩

def handle (w : Watch) : Event → Watch
  | .addNode node => { w with service := w.service.addNode node }
  | .registerIdentity identityId createdAt =>
    { w with service := w.service.registerIdentity identityId createdAt }
  | .reportBurned nodeId now => { w with service := (w.service.reportBurned nodeId now).1 }
  | .request identityId clock order =>
    match w.service.requestRationedNode identityId clock order with
    | (s, .ok node) => ⟨s,w.received++[⟨identityId,node.id,clock.allocated⟩]⟩
    | (s, .error _) => { w with service := s }

def run (cfg : Config) (events : List Event) : Watch := events.foldl handle (start cfg)

end Watch

/- What an identity has received in the window that is open at its start. -/
def window (identityId : String) (lo hi : Int) (received : List Allocation) : List Allocation :=
  received.filter fun a => a.identityId=identityId ∧ lo < a.allocatedAt ∧ a.allocatedAt ≤ hi

inductive Report where
  | added
  | burned
  deriving DecidableEq

def Event.report (nodeId : String) : Event → Option Report
  | .addNode node => if node.id=nodeId then some .added else none
  | .reportBurned id _ => if id=nodeId then some .burned else none
  | _ => none

def latest (nodeId : String) (events : List Event) : Option Report :=
  (events.filterMap (Event.report nodeId)).getLast?

section
variable {s : Service} {identityId : String} {clock : Clock} {order : List Node} {days : Int}

theorem wrap_of_fits (h : FitsDuration days) : wrap (days*day)=days*day := by
  obtain ⟨hlo,hhi⟩ := h
  rw [minDuration] at hlo
  rw [maxDuration] at hhi
  rw [wrap]
  exact Int.bmod_eq_of_le (by omega) (by omega)

/- A day count is negated before it is multiplied, which cannot overflow either: no number of days
   is the least Duration. -/
theorem wrap_neg_of_fits (h : FitsDuration days) : wrap (-days*day) = -(days*day) := by
  obtain ⟨hlo,hhi⟩ := h
  rw [minDuration,day] at hlo
  rw [maxDuration,day] at hhi
  rw [wrap,day]
  rw [Int.bmod_eq_of_le (by omega) (by omega)]
  omega

theorem mem_visited {node : Node} (h : node∈s.visited order) :
    node∈s.nodes.entries.map Sigma.snd := by
  rw [Service.visited] at h
  split_ifs at h with hperm
  · exact hperm.mem_iff.mp h
  · exact h

structure Granted (s : Service) (identityId : String) (clock : Clock) (node : Node)
    (createdAt : Int) (cap : Int) : Prop where
  known : s.identities.lookup identityId=some createdAt
  capped : Service.effectiveN s.config clock.aged createdAt = .ok cap
  room : ((s.recent identityId clock.counted).length : Int) < cap
  pooled : node∈s.nodes.entries.map Sigma.snd
  unburned : node.isBurned=false
  fresh : node.id∉(s.recent identityId clock.counted).map Allocation.nodeId

/-- A request is granted and recorded, or changes nothing. -/
theorem request_cases (s : Service) (identityId : String) (clock : Clock) (order : List Node) :
    (∃ node createdAt cap, Granted s identityId clock node createdAt cap ∧
      s.requestRationedNode identityId clock order =
        ({ s with allocations := s.allocations++[⟨identityId,node.id,clock.allocated⟩] }, .ok node)) ∨
      ∃ e, s.requestRationedNode identityId clock order=(s, .error e) := by
  rw [Service.requestRationedNode]
  cases hknown : s.identities.lookup identityId with
  | none => exact .inr ⟨_,rfl⟩
  | some createdAt =>
    dsimp only
    cases hcap : Service.effectiveN s.config clock.aged createdAt with
    | error e => exact .inr ⟨_,rfl⟩
    | ok cap =>
      dsimp only
      split_ifs with hfull
      · exact .inr ⟨_,rfl⟩
      · split
        · exact .inr ⟨_,rfl⟩
        · rename_i node hfind
          have havailable := find?_some hfind
          rw [Bool.and_eq_true,Bool.not_eq_true',Bool.not_eq_true'] at havailable
          refine .inl ⟨node,createdAt,cap,?_,rfl⟩
          exact {
            known := hknown
            capped := hcap
            room := not_le.mp hfull
            pooled := mem_visited (mem_of_find?_eq_some hfind)
            unburned := havailable.1
            fresh := by simpa using havailable.2 }

theorem effectiveN_le {cfg : Config} {now createdAt : Int} {cap : Int}
    (h : Service.effectiveN cfg now createdAt = .ok cap) : cap ≤ max cfg.maxN cfg.dampenedN := by
  rw [Service.effectiveN] at h
  split_ifs at h <;> cases h
  · exact le_max_right _ _
  · exact le_max_left _ _

/-- Whoever is young when the node is allocated was young when the age was taken. -/
theorem effectiveN_young {cfg : Config} {now later createdAt : Int} {cap : Int}
    (hfits : FitsDuration cfg.newIdentityAgeDays) (hnow : now ≤ later)
    (hyoung : later-createdAt < cfg.newIdentityAgeDays*day)
    (h : Service.effectiveN cfg now createdAt = .ok cap) : cap=cfg.dampenedN := by
  have hsince : since now createdAt < cfg.newIdentityAgeDays*day := by
    obtain ⟨hlo,hhi⟩ := hfits
    have hne : minDuration≠cfg.newIdentityAgeDays*day := by
      rw [minDuration,day]
      omega
    rw [since,max_lt_iff,min_lt_iff]
    exact ⟨lt_of_le_of_ne hlo hne,.inr (by omega)⟩
  rw [Service.effectiveN,wrap_of_fits hfits,if_pos hsince] at h
  split_ifs at h
  cases h
  rfl

/-- The allocations of a window that ends with a request or later have been counted by it. -/
theorem window_sublist_recent (hfits : FitsDuration s.config.windowDays) {hi : Int}
    (hcounted : clock.counted ≤ hi) :
    (window identityId (hi-s.config.windowDays*day) hi s.allocations).Sublist
      (s.recent identityId clock.counted) := by
  rw [window,Service.recent,wrap_neg_of_fits hfits]
  apply monotone_filter_right
  intro a ha
  rw [decide_eq_true_eq] at ha ⊢
  rw [Int.sub_eq_add_neg] at ha
  exact ⟨ha.1,(Int.add_le_add_right hcounted _).trans_lt ha.2.1⟩

theorem window_snoc (lo hi : Int) (received : List Allocation) (a : Allocation) :
    window identityId lo hi (received++[a])=window identityId lo hi received ++
      if a.identityId=identityId ∧ lo < a.allocatedAt ∧ a.allocatedAt ≤ hi then [a] else [] := by
  rw [window,filter_append,window]
  split_ifs with h
  · rw [filter_cons_of_pos (by rwa [decide_eq_true_eq]),filter_nil]
  · rw [filter_cons_of_neg (by rwa [decide_eq_true_eq]),filter_nil]
end

section
variable {cfg : Config} {events : List Event} {e : Event}

theorem run_snoc (cfg : Config) (events : List Event) (e : Event) :
    Watch.run cfg (events++[e])=(Watch.run cfg events).handle e := by
  rw [Watch.run,foldl_append]
  rfl

theorem latest_snoc (nodeId : String) (events : List Event) (e : Event) :
    latest nodeId (events++[e])=(e.report nodeId).or (latest nodeId events) := by
  rw [latest,filterMap_append,getLast?_append,latest]
  cases hreport : e.report nodeId <;> simp [hreport]

structure Inv (cfg : Config) (events : List Event) (w : Watch) : Prop where
  config : w.service.config=cfg
  received : w.received=w.service.allocations
  keyed : ∀ id node, w.service.nodes.lookup id=some node → node.id=id
  reported : ∀ id node, w.service.nodes.lookup id=some node →
    latest id events=some (if node.isBurned then .burned else .added)
  capped : ∀ identityId hi,
    ((window identityId (hi-cfg.windowDays*day) hi w.received).length : Int) ≤
      max 0 (max cfg.maxN cfg.dampenedN)
  distinct : ∀ identityId hi,
    ((window identityId (hi-cfg.windowDays*day) hi w.received).map Allocation.nodeId).Nodup

theorem Inv.start (cfg : Config) : Inv cfg [] (.start cfg) where
  config := rfl
  received := rfl
  keyed := by rintro _ _ ⟨⟩
  reported := by rintro _ _ ⟨⟩
  capped _ _ := le_max_left _ _
  distinct _ _ := nodup_nil

variable {w : Watch}

theorem Inv.still {w' : Watch} (h : Inv cfg events w) (e : Event)
    (hconfig : w'.service.config=w.service.config)
    (hallocations : w'.service.allocations=w.service.allocations)
    (hreceived : w'.received=w.received)
    (hnodes : ∀ id node, w'.service.nodes.lookup id=some node → node.id=id ∧ (e.report id).or (latest id events)=some (if node.isBurned then .burned else .added)) :
    Inv cfg (events++[e]) w' where
  config := hconfig.trans h.config
  received := by rw [hreceived,hallocations,h.received]
  keyed id node hnode := (hnodes id node hnode).1
  reported id node hnode := by
    rw [latest_snoc]
    exact (hnodes id node hnode).2
  capped := by
    rw [hreceived]
    exact h.capped
  distinct := by
    rw [hreceived]
    exact h.distinct

theorem Inv.addNode (h : Inv cfg events w) (node : Node) :
    Inv cfg (events++[.addNode node]) (w.handle (.addNode node)) := by
  refine h.still _ rfl rfl rfl fun id found hfound => ?_
  by_cases hid : id=node.id
  · subst hid
    obtain rfl : { node with isBurned := false }=found := by
      simpa [Watch.handle,Service.addNode] using hfound
    simp [Event.report]
  · have hold : w.service.nodes.lookup id=some found := by
      simpa [Watch.handle,Service.addNode,AList.lookup_insert_ne hid] using hfound
    rw [Event.report,if_neg (Ne.symm hid),Option.none_or]
    exact ⟨h.keyed id found hold,h.reported id found hold⟩

theorem Inv.registerIdentity (h : Inv cfg events w) (identityId : String) (createdAt : Int) :
    Inv cfg (events++[.registerIdentity identityId createdAt])
      (w.handle (.registerIdentity identityId createdAt)) :=
  h.still _ rfl rfl rfl fun id found hfound => ⟨h.keyed id found hfound,h.reported id found hfound⟩

theorem Inv.reportBurned (h : Inv cfg events w) (nodeId : String) (now : Int) :
    Inv cfg (events++[.reportBurned nodeId now]) (w.handle (.reportBurned nodeId now)) := by
  rw [Watch.handle,Service.reportBurned]
  cases hnode : w.service.nodes.lookup nodeId with
  | none =>
    refine h.still _ rfl rfl rfl fun id found hfound => ?_
    have hid : nodeId≠id := by
      rintro rfl
      rw [hnode] at hfound
      cases hfound
    rw [Event.report,if_neg hid,Option.none_or]
    exact ⟨h.keyed id found hfound,h.reported id found hfound⟩
  | some node =>
    refine h.still _ rfl rfl rfl fun id found hfound => ?_
    dsimp only at hfound
    by_cases hid : id=nodeId
    · subst hid
      rw [AList.lookup_insert] at hfound
      obtain rfl := Option.some.inj hfound
      rw [Event.report,if_pos rfl]
      exact ⟨h.keyed id node hnode,rfl⟩
    · rw [AList.lookup_insert_ne hid] at hfound
      rw [Event.report,if_neg (Ne.symm hid),Option.none_or]
      exact ⟨h.keyed id found hfound,h.reported id found hfound⟩

theorem Ordered.request (h : Ordered events) {identityId : String} {clock : Clock}
    {order : List Node} (hmem : .request identityId clock order∈events) :
    clock.aged ≤ clock.counted ∧ clock.counted ≤ clock.allocated := by
  obtain ⟨before,after,rfl⟩ := append_of_mem hmem
  rw [Ordered,flatMap_append,pairwise_append,flatMap_cons,pairwise_append] at h
  have hown := h.2.1.1
  simp only [Event.readings,pairwise_cons,mem_cons,not_mem_nil,or_false] at hown
  exact ⟨hown.1 _ (.inl rfl),hown.2.1 _ rfl⟩

section
variable {w : Watch} {identityId : String} {clock : Clock} {node : Node} {createdAt cap : Int}

/-- A window that a new allocation falls into holds nothing else but what its request has counted. -/
theorem Inv.window_before (h : Inv cfg events w) (hfits : FitsDuration cfg.windowDays)
    (identityId : String) {hi : Int} (hhi : clock.counted ≤ hi) :
    (window identityId (hi-cfg.windowDays*day) hi w.received).Sublist
      (w.service.recent identityId clock.counted) := by
  rw [← h.config] at hfits ⊢
  rw [h.received]
  exact window_sublist_recent hfits hhi

theorem Inv.length_grant (h : Inv cfg events w) (hfits : FitsDuration cfg.windowDays)
    (hclock : clock.counted ≤ clock.allocated)
    (hgranted : Granted w.service identityId clock node createdAt cap) {hi : Int}
    (hhi : clock.allocated ≤ hi) :
    ((window identityId (hi-cfg.windowDays*day) hi
      (w.received++[⟨identityId,node.id,clock.allocated⟩])).length : Int) ≤ cap := by
  have hbefore := (h.window_before hfits identityId (hclock.trans hhi)).length_le
  have hroom := hgranted.room
  rw [window_snoc,length_append]
  split_ifs <;> simp only [length_singleton,length_nil] <;> omega

theorem Inv.capped_grant (h : Inv cfg events w) (hfits : FitsDuration cfg.windowDays)
    (hclock : clock.counted ≤ clock.allocated)
    (hgranted : Granted w.service identityId clock node createdAt cap) (identity : String) (hi : Int) :
    ((window identity (hi-cfg.windowDays*day) hi
        (w.received++[⟨identityId,node.id,clock.allocated⟩])).length : Int) ≤
      max 0 (max cfg.maxN cfg.dampenedN) := by
  by_cases hin : identityId=identity ∧ clock.allocated ≤ hi
  · obtain ⟨rfl,hhi⟩ := hin
    have hcap := effectiveN_le hgranted.capped
    rw [h.config] at hcap
    exact ((h.length_grant hfits hclock hgranted hhi).trans hcap).trans (le_max_right _ _)
  · rw [window_snoc,if_neg fun hnew => hin ⟨hnew.1,hnew.2.2⟩,append_nil]
    exact h.capped identity hi

theorem Inv.distinct_grant (h : Inv cfg events w) (hfits : FitsDuration cfg.windowDays)
    (hclock : clock.counted ≤ clock.allocated)
    (hgranted : Granted w.service identityId clock node createdAt cap) (identity : String) (hi : Int) :
    ((window identity (hi-cfg.windowDays*day) hi
        (w.received++[⟨identityId,node.id,clock.allocated⟩])).map Allocation.nodeId).Nodup := by
  by_cases hin : identityId=identity ∧ clock.allocated ≤ hi
  · obtain ⟨rfl,hhi⟩ := hin
    have hbefore := h.window_before hfits identityId (hclock.trans hhi)
    have hfresh : node.id∉(window identityId (hi-cfg.windowDays*day) hi w.received).map
        Allocation.nodeId :=
      fun hmem => hgranted.fresh ((hbefore.map _).subset hmem)
    rw [window_snoc]
    split_ifs
    · rw [map_append,map_singleton,← concat_eq_append]
      exact (h.distinct identityId hi).concat hfresh
    · rw [append_nil]
      exact h.distinct identityId hi
  · rw [window_snoc,if_neg fun hnew => hin ⟨hnew.1,hnew.2.2⟩,append_nil]
    exact h.distinct identity hi
end

theorem Inv.request (h : Inv cfg events w) (hfits : FitsDuration cfg.windowDays) {clock : Clock}
    (hclock : clock.counted ≤ clock.allocated) (identityId : String) (order : List Node) :
    Inv cfg (events++[.request identityId clock order])
      (w.handle (.request identityId clock order)) := by
  rw [Watch.handle]
  rcases request_cases w.service identityId clock order with
    ⟨node,createdAt,cap,hgranted,hresult⟩ | ⟨e,hresult⟩
  · rw [hresult]
    exact {
      config := h.config
      received := by
        dsimp only
        rw [h.received]
      keyed := h.keyed
      reported := fun id found hfound => by
        rw [latest_snoc]
        exact h.reported id found hfound
      capped := h.capped_grant hfits hclock hgranted
      distinct := h.distinct_grant hfits hclock hgranted }
  · rw [hresult]
    exact h.still _ rfl rfl rfl fun id found hfound => ⟨h.keyed id found hfound,h.reported id found hfound⟩

theorem inv_run (hfits : FitsDuration cfg.windowDays) (events : List Event) (hclock : Ordered events) :
    Inv cfg events (.run cfg events) := by
  induction events using List.reverseRecOn with
  | nil => exact .start cfg
  | append_singleton events e ih =>
    have hbefore : Ordered events := by
      rw [Ordered,flatMap_append,pairwise_append] at hclock
      exact hclock.1
    have h := ih hbefore
    rw [run_snoc]
    cases e with
    | addNode node => exact h.addNode node
    | registerIdentity identityId createdAt => exact h.registerIdentity identityId createdAt
    | reportBurned nodeId now => exact h.reportBurned nodeId now
    | request identityId clock order =>
      have hown := hclock.request (mem_append_right _ (mem_singleton_self _))
      exact h.request hfits hown.2 identityId order

theorem Inv.latest_of_mem (h : Inv cfg events w) {node : Node}
    (hmem : node∈w.service.nodes.entries.map Sigma.snd) (hburned : node.isBurned=false) :
    latest node.id events=some .added := by
  obtain ⟨⟨id,found⟩,hentry,rfl⟩ := mem_map.mp hmem
  have hlookup := AList.mem_lookup_iff.mpr hentry
  rw [h.keyed id found hlookup,h.reported id found hlookup,if_neg (by simpa using hburned)]
end

/-- The rationing of the pool: in every window no identity has more nodes than the larger cap and
none twice; no node is given out that has last been reported burned; and a young identity is left
with no more nodes than young ones may have. -/
theorem pool_rationed (cfg : Config) (hwindow : FitsDuration cfg.windowDays)
    (hage : FitsDuration cfg.newIdentityAgeDays) (events : List Event) (hclock : Ordered events) :
    (∀ identityId hi,
      ((window identityId (hi-cfg.windowDays*day) hi (Watch.run cfg events).received).length : Int) ≤
          max 0 (max cfg.maxN cfg.dampenedN) ∧
        ((window identityId (hi-cfg.windowDays*day) hi (Watch.run cfg events).received).map
          Allocation.nodeId).Nodup) ∧
    ∀ before identityId clock order after node,
      events=before ++ .request identityId clock order::after →
      ((Watch.run cfg before).service.requestRationedNode identityId clock order).2 = .ok node →
        latest node.id before=some .added ∧
        ∃ createdAt, (Watch.run cfg before).service.identities.lookup identityId=some createdAt ∧
          (clock.allocated-createdAt < cfg.newIdentityAgeDays*day →
            ((window identityId (clock.allocated-cfg.windowDays*day) clock.allocated
              (Watch.run cfg (before++[.request identityId clock order])).received).length : Int) ≤
                cfg.dampenedN) := by
  have hinv := inv_run hwindow events hclock
  refine ⟨fun identityId hi => ⟨hinv.capped identityId hi,hinv.distinct identityId hi⟩,?_⟩
  rintro before identityId clock order after node rfl hok
  obtain ⟨hcounted,hallocated⟩ := hclock.request (mem_append_right _ mem_cons_self)
  have hbefore : Ordered before := by
    rw [Ordered,flatMap_append,pairwise_append] at hclock
    exact hclock.1
  have h := inv_run hwindow before hbefore
  rcases request_cases (Watch.run cfg before).service identityId clock order with
    ⟨found,createdAt,cap,hgranted,hresult⟩ | ⟨e,hresult⟩
  · rw [hresult] at hok
    obtain rfl := Except.ok.inj hok
    refine ⟨h.latest_of_mem hgranted.pooled hgranted.unburned,createdAt,hgranted.known,fun hyoung => ?_⟩
    have hcap : cap=cfg.dampenedN := by
      have hcapped := hgranted.capped
      rw [h.config] at hcapped
      exact effectiveN_young hage (hcounted.trans hallocated) hyoung hcapped
    have hlength := h.length_grant hwindow hallocated hgranted le_rfl
    rw [run_snoc,Watch.handle,hresult,← hcap]
    exact hlength
  · rw [hresult] at hok
    cases hok

/- Two nodes, and an identity that asks three times on one day and again after the window. -/
def season : List Event :=
  let n1 : Node := ⟨"n1", "192.0.2.1:443", "vless",false,0,0⟩
  let n2 : Node := ⟨"n2", "192.0.2.2:443", "vless",false,0,0⟩
  [.addNode n1,.addNode n2,.registerIdentity "u1" 0,
    .request "u1" ⟨8*day,8*day,8*day⟩ [n1,n2],
    .request "u1" ⟨8*day,8*day,8*day+1⟩ [n1,n2],
    .request "u1" ⟨9*day,9*day,9*day⟩ [n1,n2],.reportBurned "n1" (9*day),
    .request "u1" ⟨40*day,40*day,40*day⟩ [n1,n2]]

theorem pool_rationed_season :
    (Watch.run defaultConfig season).received.map Allocation.nodeId=["n1", "n2", "n2"] ∧
      ∀ hi, ((window "u1" (hi-30*day) hi (Watch.run defaultConfig season).received).length : Int)≤2 := by
  have h := pool_rationed defaultConfig (by decide) (by decide) season (by decide)
  exact ⟨by decide,fun hi => (h.1 "u1" hi).1⟩

end AetherX.Distribution
