import AetherX.CheckedWord
import AetherX.ReverseRelay

/-! Histories of a relay engine: the transport that a disconnect is put down to, and how long the
failed connections of an edge are told to wait. -/
namespace AetherX.ReverseRelay
open Supervisor FallbackTransport Machine List
open CheckedInt (Build)
open CheckedWord (Panic Target)

namespace ReverseRelayEngine
/- The count of failed attempts is a u32, and its increment may panic. -/
def recordFailedAttemptIn (build : Build) (e : ReverseRelayEngine) (id : String) :
    Except Panic (ReverseRelayEngine × Duration) := do
  let count ← CheckedWord.add build .bits32 ((e.reconnectAttempts.lookup id).getD 0) 1
  let base := 2^min count 6
  let jitter := count*137%500
  return ({ e with
    reconnectAttempts := e.reconnectAttempts.insert id count
    totalReconnects := e.totalReconnects+1 }, fromMillis (base*1000+jitter))

def connectEdgeIn (build : Build) (e : ReverseRelayEngine) (id coreAddr : String) (now : Instant) :
    Except Panic (ReverseRelayEngine × ConnectResult) :=
  if (e.edges.lookup id).isNone then .ok (e, .edgeNotFound)
  else
    let frontSni := (e.outerSni coreAddr).getD "www.digikala.com"
    match e.tunnelMgr.autoFailover id coreAddr now with
    | (tunnelMgr, some kind) =>
      let e := modifyEdge { e with tunnelMgr := tunnelMgr } id fun edge =>
        { edge with activeTransport := some kind, healthy := true, lastSeen := now }
      .ok ({ e with reconnectAttempts := e.reconnectAttempts.erase id }, .connected kind frontSni)
    | (tunnelMgr, none) => do
      let (e, backoff) ← recordFailedAttemptIn build { e with tunnelMgr := tunnelMgr } id
      return (e, .failedRetry backoff frontSni)

def activeTransport (e : ReverseRelayEngine) (id : String) : Option FallbackKind :=
  (e.edges.lookup id).bind EdgeRelay.activeTransport

def consecutiveFailures (e : ReverseRelayEngine) (kind : FallbackKind) : Nat :=
  ((e.tunnelMgr.health.find? fun h => h.kind=kind).map FallbackHealth.consecutiveFailures).getD 0

end ReverseRelayEngine

/- The calls of the engine, and those that its owner makes of the tunnel manager directly. -/
inductive Event where
  | call (call : Call)
  | recordSuccess (kind : FallbackKind) (rttMs : Nat) (now : Instant)
  | recordFailure (kind : FallbackKind)

/- The engine with the back-offs that each edge was told since it was last connected. -/
structure Retries where
  engine : ReverseRelayEngine
  backoffs : String → List Duration

namespace Retries
def note (s : Retries) (id : String) (engine : ReverseRelayEngine) : ConnectResult → Retries
  | .connected _ _ => ⟨engine,Function.update s.backoffs id []⟩
  | .failedRetry backoff _ => ⟨engine,Function.update s.backoffs id (s.backoffs id++[backoff])⟩
  | .edgeNotFound => ⟨engine,s.backoffs⟩

/- A panic ends the call that connects, with the edges before it connected. -/
def connect (build : Build) (coreAddr : String) (at_ : String → Instant) :
    List String → Retries → Retries
  | [], s => s
  | id::ids, s =>
    match s.engine.connectEdgeIn build id coreAddr (at_ id) with
    | .ok (engine, result) => connect build coreAddr at_ ids (s.note id engine result)
    | .error _ => s

def next (build : Build) (s : Retries) : Event → Retries
  | .call (.registerEdge relay) => { s with engine := s.engine.registerEdge relay }
  | .call (.heartbeat id healthy now) => { s with engine := s.engine.heartbeat id healthy now }
  | .call (.connectEdge id coreAddr now) => connect build coreAddr (fun _ => now) [id] s
  | .call (.handleDisconnect id) => { s with engine := s.engine.handleDisconnect id }
  | .call (.tick order coreAddr now at_) =>
    connect build coreAddr at_ (s.engine.unhealthy order now) s
  | .call (.relayBytes id bytes) =>
    { s with engine := { s.engine with tunnelMgr := (s.engine.tunnelMgr.relayBytes id bytes).1 } }
  | .recordSuccess kind rttMs now =>
    { s with engine := { s.engine with
      tunnelMgr := s.engine.tunnelMgr.recordSuccess kind rttMs now } }
  | .recordFailure kind =>
    { s with engine := { s.engine with tunnelMgr := s.engine.tunnelMgr.recordFailure kind } }

end Retries

def history (build : Build) (outerSni : String → Option String) (events : List Event) : Retries :=
  events.foldl (Retries.next build) ⟨.new outerSni,fun _ => []⟩

section
/-- A disconnect counts against the transport of its edge and no other, and one of an edge without
a transport changes the health of none. -/
def BlamesActive (e : ReverseRelayEngine) (id : String) : Prop :=
  match e.activeTransport id with
  | some transport => ∀ kind, (e.handleDisconnect id).consecutiveFailures kind =
      e.consecutiveFailures kind+if kind=transport then 1 else 0
  | none => (e.handleDisconnect id).tunnelMgr.health=e.tunnelMgr.health

variable (e : ReverseRelayEngine) (id : String)

theorem find_lookmap_kind (f : FallbackHealth → FallbackHealth) (hf : ∀ h, (f h).kind=h.kind)
    (blamed kind : FallbackKind) (health : List FallbackHealth) :
    (health.lookmap fun h => if h.kind=blamed then some (f h) else none).find?
        (fun h => h.kind=kind) =
      if kind=blamed then (health.find? fun h => h.kind=kind).map f
      else health.find? fun h => h.kind=kind := by
  induction health with
  | nil => split_ifs <;> rfl
  | cons h health ih =>
    by_cases hblamed : h.kind=blamed
    · rw [lookmap_cons_some _ _ (by rw [if_pos hblamed])]
      by_cases hkind : h.kind=kind
      · simp [hf,← hkind,hblamed]
      · have hne : kind≠blamed := fun heq => hkind (by rw [hblamed,heq])
        simp [hf,hkind,hne]
    · rw [lookmap_cons_none _ _ (by rw [if_neg hblamed])]
      by_cases hkind : h.kind=kind
      · have hne : kind≠blamed := fun heq => hblamed (by rw [hkind,heq])
        simp [hkind,hne]
      · simpa [hkind] using ih

theorem exists_health (kind : FallbackKind) :
    ∃ h, e.tunnelMgr.health.find? (fun h => h.kind=kind)=some h := by
  have hall : kind∈e.tunnelMgr.health.map FallbackHealth.kind := by
    rw [e.tunnelMgr.kinds]
    cases kind <;> decide
  obtain ⟨h,hmem,rfl⟩ := mem_map.mp hall
  exact ⟨h,find_kind e.tunnelMgr hmem⟩

/-- The failure goes to the transport that heads the chain, which is never empty. -/
theorem disconnect_health :
    ∃ best, e.tunnelMgr.fallbackChain.head? = some best ∧
      (e.handleDisconnect id).tunnelMgr.health=(e.tunnelMgr.recordFailure best).health := by
  have hne : e.tunnelMgr.fallbackChain≠[] := by
    obtain ⟨h,hfind⟩ := exists_health e .tlsInTls
    have hmem := (mem_fallbackChain e.tunnelMgr).mpr ⟨h,mem_of_find?_eq_some hfind,rfl⟩
    exact ne_nil_of_mem hmem
  refine ⟨e.tunnelMgr.fallbackChain.head hne,head?_eq_some_head hne,?_⟩
  have hmgr := modifyEdge_tunnelMgr { e with tunnelMgr := (e.tunnelMgr.closeTunnel id).1 } id
    fun edge => { edge with healthy := false, activeTransport := none }
  have hchain : (e.tunnelMgr.closeTunnel id).1.fallbackChain.head? =
      some (e.tunnelMgr.fallbackChain.head hne) := head?_eq_some_head hne
  simp only [ReverseRelayEngine.handleDisconnect,hmgr,hchain]
  rfl

theorem failures_disconnect {best : FallbackKind}
    (hbest : e.tunnelMgr.fallbackChain.head? = some best) (kind : FallbackKind) :
    (e.handleDisconnect id).consecutiveFailures kind =
      e.consecutiveFailures kind+if kind=best then 1 else 0 := by
  obtain ⟨best',hbest',hhealth⟩ := disconnect_health e id
  obtain rfl := Option.some.inj (hbest.symm.trans hbest')
  obtain ⟨h,hfind⟩ := exists_health e kind
  have hrecord : (e.tunnelMgr.recordFailure best).health.find? (fun h => h.kind=kind) =
      if kind=best then some h.recordFailure else some h := by
    rw [← Option.map_some,← hfind]
    exact find_lookmap_kind FallbackHealth.recordFailure (fun _ => rfl) best kind _
  rw [ReverseRelayEngine.consecutiveFailures,hhealth,hrecord,
    ReverseRelayEngine.consecutiveFailures,hfind]
  split_ifs <;> rfl

theorem blamesActive_iff :
    BlamesActive e id ↔ e.activeTransport id=e.tunnelMgr.fallbackChain.head? := by
  obtain ⟨best,hbest,-⟩ := disconnect_health e id
  have hfailures := failures_disconnect e id hbest
  rw [BlamesActive,hbest]
  split
  next transport hactive =>
    rw [hactive,Option.some.injEq]
    constructor
    · intro h
      have hcount := h transport
      rw [hfailures,if_pos rfl] at hcount
      by_contra hne
      rw [if_neg hne] at hcount
      omega
    · intro heq kind
      rw [hfailures,heq]
  next hnone =>
    rw [hnone]
    refine iff_of_false (fun hsame => ?_) (Option.some_ne_none best).symm
    have hcount := hfailures best
    rw [ReverseRelayEngine.consecutiveFailures,hsame,if_pos rfl] at hcount
    exact absurd hcount (Nat.ne_of_lt (Nat.lt_succ_self _))
end

/- The edge is connected over TLS, and other users of the transport see it fail. -/
def blockedSinceConnect : List Event :=
  [.call (.registerEdge edge),.call (.connectEdge "tehran-01" "core.example:443" 1),
    .recordFailure .tlsInTls,.recordFailure .tlsInTls,.recordFailure .tlsInTls]

def schedule (count : Nat) : Duration := fromMillis (2^min count 6*1000+count*137%500)

section
variable {build : Build} {s : Retries}

theorem modifyEdge_reconnectAttempts (e : ReverseRelayEngine) (id : String)
    (f : EdgeRelay → EdgeRelay) : (e.modifyEdge id f).reconnectAttempts=e.reconnectAttempts := by
  rw [ReverseRelayEngine.modifyEdge]
  cases e.edges.lookup id <;> rfl

theorem disconnect_reconnectAttempts (e : ReverseRelayEngine) (id : String) :
    (e.handleDisconnect id).reconnectAttempts=e.reconnectAttempts := by
  simp only [ReverseRelayEngine.handleDisconnect]
  split
  · exact modifyEdge_reconnectAttempts ..
  · exact modifyEdge_reconnectAttempts ..

/-- What a connection does to the attempts of its edge. -/
inductive Attempted (build : Build) (e : ReverseRelayEngine) (id : String) :
    Except Panic (ReverseRelayEngine × ConnectResult) → Prop
  | notFound : Attempted build e id (.ok (e, .edgeNotFound))
  | connected (e' : ReverseRelayEngine) (kind : FallbackKind) (frontSni : String) :
      e'.reconnectAttempts=e.reconnectAttempts.erase id →
      Attempted build e id (.ok (e', .connected kind frontSni))
  | failed (e' : ReverseRelayEngine) (count : Nat) (frontSni : String) :
      CheckedWord.add build .bits32 ((e.reconnectAttempts.lookup id).getD 0) 1 = .ok count →
      e'.reconnectAttempts=e.reconnectAttempts.insert id count →
      Attempted build e id (.ok (e', .failedRetry (schedule count) frontSni))
  | panicked (panic : Panic) : Attempted build e id (.error panic)

theorem connectEdgeIn_attempted (build : Build) (e : ReverseRelayEngine) (id coreAddr : String) (now : Instant) :
    Attempted build e id (e.connectEdgeIn build id coreAddr now) := by
  rw [ReverseRelayEngine.connectEdgeIn]
  split_ifs
  · exact .notFound
  · cases e.tunnelMgr.autoFailover id coreAddr now with
    | mk tunnelMgr chosen =>
      cases chosen with
      | some kind =>
        refine .connected _ kind _ ?_
        rw [modifyEdge_reconnectAttempts]
      | none =>
        simp only [ReverseRelayEngine.recordFailedAttemptIn]
        cases hadd : CheckedWord.add build .bits32 ((e.reconnectAttempts.lookup id).getD 0) 1 with
        | ok count => exact .failed _ count _ hadd rfl
        | error panic => exact .panicked panic

theorem add_bits32_eq {a count : Nat} (h : CheckedWord.add build .bits32 a 1 = .ok count) :
    count=(a+1)%2^32 := by
  by_cases hlt : a+1<2^Target.bits32.bits
  · rw [CheckedWord.add_of_lt hlt] at h
    rw [← Except.ok.inj h]
    exact (Nat.mod_eq_of_lt hlt).symm
  · cases build with
    | debug =>
      rw [CheckedWord.add_debug_of_ge (Nat.not_lt.mp hlt)] at h
      cases h
    | release =>
      have hwrap : CheckedWord.add .release .bits32 a 1 = .ok ((a+1)%2^32) := if_neg hlt
      rw [hwrap] at h
      exact (Except.ok.inj h).symm

/-- The count of attempts is the number of back-offs told, as far as a u32 holds it, and each of
them is the one that the schedule has for its place. -/
def Scheduled (s : Retries) : Prop :=
  ∀ id, (s.engine.reconnectAttempts.lookup id).getD 0=(s.backoffs id).length%2^32 ∧
    s.backoffs id =
      (range (s.backoffs id).length).map fun i => schedule ((i+1)%2^32)

variable {engine : ReverseRelayEngine}

theorem Scheduled.congr (h : Scheduled s)
    (hattempts : engine.reconnectAttempts=s.engine.reconnectAttempts) :
    Scheduled ⟨engine,s.backoffs⟩ := by
  intro id
  rw [hattempts]
  exact h id

theorem Scheduled.note (h : Scheduled s) {id : String} {result : ConnectResult}
    (hattempted : Attempted build s.engine id (.ok (engine, result))) :
    Scheduled (s.note id engine result) := by
  cases hattempted with
  | notFound => exact h
  | connected _ kind frontSni hattempts =>
    intro id'
    simp only [Retries.note,hattempts]
    by_cases hid : id'=id
    · rw [hid,Function.update_self,AList.lookup_erase]
      exact ⟨rfl,rfl⟩
    · rw [Function.update_of_ne hid,AList.lookup_erase_ne hid]
      exact h id'
  | failed _ count frontSni hadd hattempts =>
    intro id'
    simp only [Retries.note,hattempts]
    by_cases hid : id'=id
    · obtain ⟨hcount,hlist⟩ := h id
      have hnext : count=((s.backoffs id).length+1)%2^32 := by
        rw [add_bits32_eq hadd,hcount,Nat.mod_add_mod]
      rw [hid,Function.update_self,AList.lookup_insert,length_append,length_singleton,
        range_succ,map_append,map_singleton,← hlist,← hnext]
      exact ⟨rfl,rfl⟩
    · rw [Function.update_of_ne hid,AList.lookup_insert_ne hid]
      exact h id'

theorem Scheduled.connect (h : Scheduled s) (coreAddr : String) (at_ : String → Instant)
    (ids : List String) : Scheduled (Retries.connect build coreAddr at_ ids s) := by
  induction ids generalizing s with
  | nil => exact h
  | cons id ids ih =>
    have hattempted := connectEdgeIn_attempted build s.engine id coreAddr (at_ id)
    rw [Retries.connect]
    split
    next engine result heq =>
      rw [heq] at hattempted
      exact ih (h.note hattempted)
    next => exact h

theorem Scheduled.next (h : Scheduled s) (event : Event) : Scheduled (s.next build event) := by
  cases event with
  | call call =>
    cases call with
    | registerEdge relay => exact h.congr rfl
    | heartbeat id healthy now => exact h.congr (modifyEdge_reconnectAttempts ..)
    | connectEdge id coreAddr now => exact h.connect coreAddr _ [id]
    | handleDisconnect id => exact h.congr (disconnect_reconnectAttempts ..)
    | tick order coreAddr now at_ => exact h.connect coreAddr at_ _
    | relayBytes id bytes => exact h.congr rfl
  | recordSuccess kind rttMs now => exact h.congr rfl
  | recordFailure kind => exact h.congr rfl

theorem scheduled_history (build : Build) (outerSni : String → Option String) (events : List Event) :
    Scheduled (history build outerSni events) :=
  foldlRecOn events (Retries.next build) (fun _ => ⟨rfl,rfl⟩) fun _ hs event _ => hs.next event
end

theorem fromMillis_le_iff {a b : Nat} : fromMillis a ≤ fromMillis b ↔ a ≤ b :=
  Nat.mul_le_mul_right_iff (by decide)

theorem fromMillis_lt_iff {a b : Nat} : fromMillis a < fromMillis b ↔ a < b :=
  Nat.mul_lt_mul_right (by decide)

/-- The n-th back-off is as many seconds as n - 1 doublings make of one, sixty at most, and less
than half a second more. -/
def InSchedule (n : Nat) (backoff : Duration) : Prop :=
  fromMillis (min (2^(n-1)) 60*1000) ≤ backoff ∧
    backoff < fromMillis (min (2^(n-1)) 60*1000+500)

theorem schedule_inSchedule_iff (n count : Nat) :
    InSchedule n (schedule count) ↔ 2^min count 6=min (2^(n-1)) 60 := by
  have hjitter : count*137%500<500 := Nat.mod_lt _ (by decide)
  rw [InSchedule,schedule,fromMillis_le_iff,fromMillis_lt_iff]
  omega

/-- The doublings start one too early and go on to 64. -/
theorem not_inSchedule (n : Nat) : ¬ InSchedule (n+1) (schedule ((n+1)%2^32)) := by
  rw [schedule_inSchedule_iff,Nat.add_sub_cancel]
  by_cases hn : n<6
  · have hfirst : ∀ n<6, 2^min ((n+1)%2^32) 6≠min (2^n) 60 := by decide
    exact hfirst n hn
  · have hcap : min (2^n) 60=60 := by
      have hpow : 2^6≤2^n := Nat.pow_le_pow_right (by decide) (Nat.not_lt.mp hn)
      omega
    have hpowers : ∀ k≤6, 2^k≠60 := by decide
    rw [hcap]
    exact hpowers _ (Nat.min_le_right _ _)

/-- From the eighth failure on the jitter may take back what the schedule no longer adds. -/
theorem map_schedule_pairwise_iff (n : Nat) :
    ((range n).map fun i => schedule ((i+1)%2^32)).Pairwise (· ≤ ·) ↔ n≤7 := by
  constructor
  · intro h
    by_contra hlt
    have hpair := pairwise_iff_getElem.mp h 6 7 (by simp; omega) (by simp; omega) (by decide)
    rw [getElem_map,getElem_map,List.getElem_range,List.getElem_range] at hpair
    exact absurd hpair (by decide)
  · intro hle
    have hseven : ((range 7).map fun i => schedule ((i+1)%2^32)).Pairwise (· ≤ ·) := by
      decide
    exact hseven.sublist ((range_sublist.mpr hle).map _)

/-- No back-off that a failed connection returns is the one that was promised for its place in the
run, whatever the history. They do not decrease exactly for the first seven failures of a run, and a
run starts over once the edge has been connected. -/
theorem backoff_never_in_schedule (build : Build) (outerSni : String → Option String)
    (events : List Event) (id : String) :
    (∀ n backoff, ((history build outerSni events).backoffs id)[n]? = some backoff →
      ¬ InSchedule (n+1) backoff) ∧
    (((history build outerSni events).backoffs id).Pairwise (· ≤ ·) ↔
      ((history build outerSni events).backoffs id).length≤7) ∧
    (history build outerSni events).backoffs id =
      (range ((history build outerSni events).backoffs id).length).map
        fun i => schedule ((i+1)%2^32) := by
  obtain ⟨-,hlist⟩ := scheduled_history build outerSni events id
  refine ⟨fun n backoff hn => ?_,?_,hlist⟩
  · rw [hlist,getElem?_map,Option.map_eq_some_iff] at hn
    obtain ⟨i,hi,rfl⟩ := hn
    rw [(List.getElem?_eq_some_iff.mp hi).2.symm,List.getElem_range]
    exact not_inSchedule n
  · rw [hlist,List.length_map,List.length_range]
    exact map_schedule_pairwise_iff _

/- Every transport is out of use, and the edge tries eight times. -/
def allBlocked : List Event :=
  .call (.registerEdge edge)::FallbackKind.all.flatMap fun kind =>
    replicate 3 (.recordFailure kind)

def eightAttempts : List Event :=
  allBlocked++replicate 8 (.call (.connectEdge "tehran-01" "core.example:443" 1))

/-- The first back-off is over two seconds, and the eighth is shorter than the seventh. -/
theorem backoff_doubled_and_decreasing :
    (¬ ∀ (events : List Event) (id : String) (n : Nat) (backoff : Duration),
      ((history .release (fun _ => none) events).backoffs id)[n]? = some backoff →
      InSchedule (n+1) backoff) ∧
    ¬ ∀ (events : List Event) (id : String),
      ((history .release (fun _ => none) events).backoffs id).Pairwise (· ≤ ·) := by
  have hbackoffs : (history .release (fun _ => none) eightAttempts).backoffs "tehran-01" =
      [2137,4274,8411,16048,32185,64322,64459,64096].map fromMillis := by decide +kernel
  constructor
  · intro h
    have hfirst := h eightAttempts "tehran-01" 0 (fromMillis 2137) (by rw [hbackoffs]; rfl)
    exact absurd hfirst.2 (by decide)
  · intro h
    have hpairwise := h eightAttempts "tehran-01"
    rw [hbackoffs] at hpairwise
    exact absurd hpairwise (by decide)

end AetherX.ReverseRelay
