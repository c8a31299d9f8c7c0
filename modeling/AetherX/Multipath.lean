import Mathlib.Data.List.MinMax
import AetherX.ManagedProcess

/-! A race of connect calls. Each call runs on a thread of its own and reports over a channel;
the race takes the reports that arrive before its deadline, joins every thread, picks the
fastest connection and accounts for the transports that have not reported. Instants count from
the start of the race, and the racing thread's own work takes no time. -/
namespace AetherX.Multipath
open List
open Supervisor (Instant Duration fromSecs)
open ManagedProcess (SocketAddr localhostV4)

structure TransportConnection where
  transportName : String
  established : Bool
  rttMs : UInt32
  peer : SocketAddr
  deriving DecidableEq

inductive ConnectError where
  | connectionRefused (target : String)
  | timeout (after : Duration)
  | dnsResolutionFailed (hostname : String)
  | tlsHandshakeFailed
  | ioError (target : String)
  | notConfigured (transport : String)
  | invalidTarget (target : String)
  | invalidTimeout
  | runtimeUnavailable
  deriving DecidableEq

structure RaceAttempt where
  name : String
  established : Bool
  rttMs : UInt32
  error : Option String
  deriving DecidableEq

structure RaceOutcome where
  winner : Option TransportConnection
  attempts : List RaceAttempt
  deriving DecidableEq

/- What becomes of a connect call, and how long after the start. -/
inductive Connect where
  | returns (after : Duration) (result : Except ConnectError TransportConnection)
  | panics (after : Duration)
  | hangs

structure Transport where
  name : String
  connect : Connect

structure Report where
  arrived : Instant
  name : String
  result : Except ConnectError TransportConnection

namespace Transport
def report (t : Transport) : Option Report :=
  match t.connect with
  | .returns after result => some ⟨after,t.name,result⟩
  | .panics _ | .hangs => none

def endsAt (t : Transport) : Option Instant :=
  match t.connect with
  | .returns after _ | .panics after => some after
  | .hangs => none

end Transport

/- The messages of the threads in the order of the channel: all that are sent, by the time of
   their arrival, and those of one instant in any order. -/
structure Channel (transports : List Transport) where
  reports : List Report
  sent : reports.Perm (transports.filterMap Transport.report)
  ordered : reports.Pairwise fun r later => r.arrived ≤ later.arrived

/- The standard library's text of a duration. -/
variable (debug : Duration → String)

def ConnectError.display : ConnectError → String
  | .connectionRefused target => "connection to " ++ target ++ " was refused"
  | .timeout after => "connection timed out after " ++ debug after
  | .dnsResolutionFailed hostname => "DNS resolution failed for " ++ hostname
  | .tlsHandshakeFailed => "TLS handshake failed"
  | .ioError target => "I/O error while connecting to " ++ target
  | .notConfigured transport =>
    "transport " ++ transport ++ " has no configured real network endpoint"
  | .invalidTarget target => "invalid TCP connection target " ++ target
  | .invalidTimeout => "connection timeout must be non-zero"
  | .runtimeUnavailable => "failed to create or join the Tokio connection runtime"

def RaceAttempt.fromConnection (c : TransportConnection) : RaceAttempt :=
  ⟨c.transportName,c.established,c.rttMs,none⟩

namespace Report
/- A connection is entered under the name that it carries itself. -/
def attempt (r : Report) : RaceAttempt :=
  match r.result with
  | .ok connection => .fromConnection connection
  | .error error => ⟨r.name,false,0,some (error.display debug)⟩

def connection (r : Report) : Option TransportConnection := r.result.toOption

def enteredName (r : Report) : String :=
  match r.result with
  | .ok connection => connection.transportName
  | .error _ => r.name

end Report

/- What the loop over the channel leaves, and when it is left. -/
structure Received where
  attempts : List RaceAttempt
  connections : List TransportConnection
  endedAt : Instant

/- The loop, with what is still to arrive. It waits for as long as the deadline is away, and
   less when every sender is gone. -/
def receive (deadline : Instant) (closed : Option Instant) (attempts : List RaceAttempt)
    (connections : List TransportConnection) (now : Instant) : List Report → Received
  | [] =>
    let remaining := deadline-now
    if remaining=0 then ⟨attempts,connections,now⟩
    else
      match closed with
      | some gone => ⟨attempts,connections,min (max now gone) (now+remaining)⟩
      | none => ⟨attempts,connections,now+remaining⟩
  | r::reports =>
    let remaining := deadline-now
    if remaining=0 then ⟨attempts,connections,now⟩
    else if r.arrived < now+remaining then
      receive deadline closed (attempts++[r.attempt debug])
        (connections++r.connection.toList) (max now r.arrived) reports
    else ⟨attempts,connections,now+remaining⟩

/- Each thread is waited for in turn; none for a wait that never ends. -/
def join : Instant → List Transport → Option Instant
  | now, [] => some now
  | now, t::transports =>
    match t.endsAt with
    | some ended => join (max now ended) transports
    | none => none

def timedOut (timeout : Duration) (t : Transport) : RaceAttempt :=
  ⟨t.name,false,0,some ("race deadline exceeded after " ++ debug timeout)⟩

def fastest (connections : List TransportConnection) : Option TransportConnection :=
  connections.argmin fun c => c.rttMs.toNat

/- The outcome, with the instant at which the race returns. The senders are gone when every
   thread has ended. -/
def race (transports : List Transport) (channel : Channel transports) (timeout : Duration) :
    Option (Instant × RaceOutcome) :=
  let received := receive debug timeout (join 0 transports) [] [] 0 channel.reports
  (join received.endedAt transports).map fun returned =>
    let reported := received.attempts.map RaceAttempt.name
    (returned,
      ⟨fastest received.connections,
        received.attempts ++
          (transports.filter fun t => t.name∉reported).map (timedOut debug timeout)⟩)

/- What a race is for, read off the transports. -/
def Report.inTime (timeout : Duration) (r : Report) : Bool := r.arrived < timeout

def Transport.reported (timeout : Duration) (t : Transport) : Option Report :=
  t.report.filter (Report.inTime timeout)

def reportedConnections (timeout : Duration) (transports : List Transport) :
    List TransportConnection :=
  (transports.filterMap (Transport.reported timeout)).filterMap Report.connection

/-- The winner is an established connection, none of the established ones is faster, and there
is one if any connection was established. -/
def WinnerRight (connections : List TransportConnection) : Option TransportConnection → Prop
  | some winner => winner∈connections ∧ winner.established=true ∧
    ∀ c∈connections, c.established=true → winner.rttMs.toNat ≤ c.rttMs.toNat
  | none => ∀ c∈connections, c.established=false

def Transport.entry (timeout : Duration) (t : Transport) : RaceAttempt :=
  (t.reported timeout).elim (timedOut debug timeout t) (Report.attempt debug)

/-- Some report that came in time was entered under the name. -/
def NameEntered (timeout : Duration) (transports : List Transport) (name : String) : Prop :=
  ∃ r∈transports.filterMap (Transport.reported timeout), r.enteredName=name

section
variable {α β γ : Type*}

/-- Two selections from a list have the same images only if they agree, when the first depends
on the image alone. -/
theorem filter_map_perm_iff {f : α → β} {p q : α → Bool} {l : List α}
    (hp : ∀ a b, f a=f b → p a=p b) :
    ((l.filter p).map f).Perm ((l.filter q).map f) ↔ ∀ a∈l, p a=q a := by
  constructor
  · intro hperm
    have hsub : ∀ a∈l, q a=true → p a=true := by
      intro a ha hq
      have himage : f a∈(l.filter p).map f :=
        hperm.mem_iff.mpr (mem_map_of_mem (mem_filter.mpr ⟨ha,hq⟩))
      obtain ⟨b,hb,hfb⟩ := mem_map.mp himage
      exact (hp a b hfb.symm).trans (mem_filter.mp hb).2
    have hfilter : (l.filter p).filter q=l.filter q := by
      rw [filter_filter]
      refine filter_congr fun a ha => ?_
      cases hq : q a with
      | false => rfl
      | true => simp [hsub a ha hq]
    have hlength : ((l.filter p).filter q).length=(l.filter p).length := by
      rw [hfilter]
      simpa using hperm.length_eq.symm
    have hall := length_filter_eq_length_iff.mp hlength
    intro a ha
    cases hpa : p a with
    | true => exact (hall a (mem_filter.mpr ⟨ha,hpa⟩)).symm
    | false =>
      cases hqa : q a with
      | true => exact absurd (hsub a ha hqa) (by simp [hpa])
      | false => rfl
  · intro hsame
    rw [filter_congr hsame]

theorem map_elim_perm (g : α → Option γ) (found : γ → β) (missing : α → β) (l : List α) :
    (l.map fun a => (g a).elim (missing a) found).Perm
      ((l.filterMap g).map found++(l.filter fun a => (g a).isNone).map missing) := by
  induction l with
  | nil => exact .nil
  | cons a l ih =>
    cases ha : g a with
    | some c => simpa [ha] using ih
    | none =>
      simp only [map_cons,filterMap_cons,filter_cons,ha,Option.isNone_none,if_true]
      exact (ih.cons _).trans perm_middle.symm
end

section
variable {deadline : Instant} {closed : Option Instant} {reports : List Report}

theorem filter_inTime_eq_nil {r : Report} (hlate : ¬ r.arrived < deadline)
    (hordered : ∀ later∈reports, r.arrived ≤ later.arrived) :
    reports.filter (Report.inTime deadline)=[] := by
  refine filter_eq_nil_iff.mpr fun later hlater => ?_
  simpa [Report.inTime] using (not_lt.mp hlate).trans (hordered later hlater)

/-- The loop takes exactly what arrives before the deadline, and is left by then. -/
theorem receive_eq (hordered : reports.Pairwise fun r later => r.arrived ≤ later.arrived)
    (attempts : List RaceAttempt) (connections : List TransportConnection) {now : Instant}
    (hnow : now < deadline) :
    ∃ ended ≤ deadline, receive debug deadline closed attempts connections now reports =
      ⟨attempts++(reports.filter (Report.inTime deadline)).map (Report.attempt debug),
        connections++(reports.filter (Report.inTime deadline)).filterMap Report.connection,
        ended⟩ := by
  -- the clock stays before the deadline for as long as reports are taken
  induction reports generalizing attempts connections now with
  | nil =>
    have hopen : ¬ deadline-now=0 := Nat.sub_ne_zero_of_lt hnow
    have hwait : now+(deadline-now)=deadline := Nat.add_sub_of_le hnow.le
    cases closed with
    | some gone =>
      exact ⟨min (max now gone) deadline,min_le_right _ _,by simp [receive,hopen,hwait]⟩
    | none => exact ⟨deadline,le_rfl,by simp [receive,hopen,hwait]⟩
  | cons r reports ih =>
    have hopen : ¬ deadline-now=0 := Nat.sub_ne_zero_of_lt hnow
    have hwait : now+(deadline-now)=deadline := Nat.add_sub_of_le hnow.le
    obtain ⟨hfirst,hrest⟩ := pairwise_cons.mp hordered
    by_cases harrived : r.arrived < deadline
    · have htaken : r.inTime deadline=true := by simpa [Report.inTime] using harrived
      obtain ⟨ended,hended,heq⟩ := ih hrest (attempts++[r.attempt debug])
        (connections++r.connection.toList) (max_lt hnow harrived)
      refine ⟨ended,hended,?_⟩
      simp only [receive,hopen,hwait,harrived,if_true,if_false,heq,filter_cons,
        htaken,map_cons,filterMap_cons,append_assoc,singleton_append]
      cases r.connection <;> rfl
    · have hlate : r.inTime deadline=false := by simpa [Report.inTime] using harrived
      refine ⟨deadline,le_rfl,?_⟩
      simp [receive,hopen,hwait,harrived,hlate,filter_inTime_eq_nil harrived hfirst]

theorem receive_zero (attempts : List RaceAttempt) (connections : List TransportConnection) :
    receive debug 0 closed attempts connections 0 reports=⟨attempts,connections,0⟩ := by
  cases reports <;> simp [receive]

theorem receive_start (deadline : Instant) (closed : Option Instant)
    (hordered : reports.Pairwise fun r later => r.arrived ≤ later.arrived) :
    ∃ ended ≤ deadline, receive debug deadline closed [] [] 0 reports =
      ⟨(reports.filter (Report.inTime deadline)).map (Report.attempt debug),
        (reports.filter (Report.inTime deadline)).filterMap Report.connection,ended⟩ := by
  cases deadline with
  | zero =>
    refine ⟨0,le_rfl,?_⟩
    have hnone : reports.filter (Report.inTime 0)=[] :=
      filter_eq_nil_iff.mpr fun r _ => by simp [Report.inTime]
    rw [receive_zero,hnone]
    rfl
  | succ n => exact receive_eq debug hordered [] [] (Nat.succ_pos n)
end

theorem join_le_iff (transports : List Transport) (now limit : Instant) :
    (∃ returned, join now transports=some returned ∧ returned ≤ limit) ↔
      now ≤ limit ∧ ∀ t∈transports, ∃ ended, t.endsAt=some ended ∧ ended ≤ limit := by
  induction transports generalizing now with
  | nil => simp [join]
  | cons t transports ih =>
    cases hends : t.endsAt with
    | none => simp [join,hends]
    | some ended => simp [join,hends,ih,and_assoc]

section
variable {timeout : Duration} {transports : List Transport} (channel : Channel transports)

/- What the loop takes is what the transports report in time. -/
theorem taken_perm (timeout : Duration) : (channel.reports.filter (Report.inTime timeout)).Perm
    (transports.filterMap (Transport.reported timeout)) := by
  refine (channel.sent.filter _).trans (.of_eq ?_)
  rw [filter_filterMap]
  rfl

theorem attempt_name (r : Report) : (r.attempt debug).name=r.enteredName := by
  cases h : r.result <;> simp [Report.attempt,Report.enteredName,h,RaceAttempt.fromConnection]

theorem winnerRight_fastest_iff {received connections : List TransportConnection}
    (hperm : received.Perm connections) :
    WinnerRight connections (fastest received) ↔
      ∀ c, fastest received=some c → c.established=true := by
  cases hfastest : fastest received with
  | none =>
    have hnil : received=[] := argmin_eq_none.mp hfastest
    subst hnil
    simp [WinnerRight,hperm.nil_eq.symm]
  | some winner =>
    have hmem : winner∈connections := hperm.mem_iff.mp (argmin_mem hfastest)
    have hleast : ∀ c∈connections, winner.rttMs.toNat ≤ c.rttMs.toNat :=
      fun c hc => le_of_mem_argmin (f := fun c : TransportConnection => c.rttMs.toNat)
        (hperm.mem_iff.mpr hc) hfastest
    constructor
    · intro hright c hc
      exact Option.some.inj hc ▸ hright.2.1
    · intro hestablished
      exact ⟨hmem,hestablished winner rfl,fun c hc _ => hleast c hc⟩

/-- The entries are one for each transport exactly if the names entered tell who has reported. -/
theorem attempts_perm_iff {reports : List Report}
    (hperm : reports.Perm (transports.filterMap (Transport.reported timeout))) :
    (reports.map (Report.attempt debug) ++
        (transports.filter fun t =>
          t.name∉(reports.map (Report.attempt debug)).map RaceAttempt.name).map
            (timedOut debug timeout)).Perm (transports.map (Transport.entry debug timeout)) ↔
      ∀ t∈transports, (t.reported timeout).isSome ↔ NameEntered timeout transports t.name := by
  have hentered : ∀ name, name∈(reports.map (Report.attempt debug)).map RaceAttempt.name ↔
      NameEntered timeout transports name := by
    intro name
    simp only [NameEntered,mem_map,exists_exists_and_eq_and,attempt_name,hperm.mem_iff]
  have hentries := map_elim_perm (Transport.reported timeout) (Report.attempt debug)
    (timedOut debug timeout) transports
  have hsplit := hentries.trans ((hperm.map (Report.attempt debug)).symm.append_right _)
  have hname : ∀ t u : Transport, timedOut debug timeout t=timedOut debug timeout u →
      decide (t.name∉(reports.map (Report.attempt debug)).map RaceAttempt.name) =
        decide (u.name∉(reports.map (Report.attempt debug)).map RaceAttempt.name) := by
    intro t u htu
    rw [show t.name=u.name from congrArg RaceAttempt.name htu]
  calc
    _ ↔ ((transports.filter fun t =>
          t.name∉(reports.map (Report.attempt debug)).map RaceAttempt.name).map
            (timedOut debug timeout)).Perm
          ((transports.filter fun t => (t.reported timeout).isNone).map
            (timedOut debug timeout)) := by
      exact (hsplit.congr_right _).trans (perm_append_left_iff _)
    _ ↔ _ := by
      rw [filter_map_perm_iff hname]
      refine forall₂_congr fun t _ => ?_
      rw [← hentered]
      cases t.reported timeout <;> simp
end

/-- What a race returns. The winner is right exactly if the first of the fastest connections
received is an established one. The attempts are one entry for each transport exactly if the
names entered tell the transports that have reported in time from those that have not. -/
theorem race_outcome_iff (transports : List Transport) (channel : Channel transports)
    (timeout : Duration) (returned : Instant) (outcome : RaceOutcome)
    (hrace : race debug transports channel timeout=some (returned, outcome)) :
    (WinnerRight (reportedConnections timeout transports) outcome.winner ↔
      ∀ c, fastest ((channel.reports.filter (Report.inTime timeout)).filterMap Report.connection) =
        some c → c.established=true) ∧
    (outcome.attempts.Perm (transports.map (Transport.entry debug timeout)) ↔
      ∀ t∈transports, (t.reported timeout).isSome ↔ NameEntered timeout transports t.name) := by
  obtain ⟨ended,-,hreceived⟩ :=
    receive_start debug timeout (join 0 transports) channel.ordered
  have htaken := taken_perm channel timeout
  simp only [race,hreceived,Option.map_eq_some_iff,Prod.mk.injEq] at hrace
  obtain ⟨_,-,-,rfl⟩ := hrace
  exact ⟨winnerRight_fastest_iff (htaken.filterMap _),attempts_perm_iff debug htaken⟩

/- Transports for a race of two seconds: one whose call ends after some time with a connection,
   and one whose call never ends. -/
def answering (name : String) (after : Duration) (established : Bool) (rttMs : UInt32) :
    Transport :=
  ⟨name,.returns after (.ok ⟨name,established,rttMs,⟨localhostV4,0⟩⟩)⟩

def silent (name : String) : Transport := ⟨name,.hangs⟩

/- A channel of transports that answer one after the other, in the order of the list. -/
def answers (transports : List Transport)
    (h : (transports.filterMap Transport.report).Pairwise fun r later => r.arrived ≤ later.arrived) :
    Channel transports :=
  ⟨transports.filterMap Transport.report,.refl _,h⟩

def oneLate : List Transport :=
  [answering "tor" (fromSecs 1) true 40,answering "dns" (fromSecs 3) true 10]

/-- One transport answers in time, and a faster one late. -/
theorem race_outcome_iff_one_late :
    race (fun _ => "2s") oneLate (answers oneLate (by decide)) (fromSecs 2) =
      some (fromSecs 3, ⟨some ⟨"tor",true,40,⟨localhostV4,0⟩⟩,[⟨"tor",true,40,none⟩,
        ⟨"dns",false,0,some "race deadline exceeded after 2s"⟩]⟩) ∧
      WinnerRight (reportedConnections (fromSecs 2) oneLate)
        (some ⟨"tor",true,40,⟨localhostV4,0⟩⟩) := by
  have hrace : race (fun _ => "2s") oneLate (answers oneLate (by decide)) (fromSecs 2) =
      some (fromSecs 3, ⟨some ⟨"tor",true,40,⟨localhostV4,0⟩⟩,[⟨"tor",true,40,none⟩,
        ⟨"dns",false,0,some "race deadline exceeded after 2s"⟩]⟩) := by rfl
  refine ⟨hrace,(race_outcome_iff _ _ _ _ _ _ hrace).1.mpr ?_⟩
  intro c hc
  obtain rfl := Option.some.inj hc
  rfl

/-- A connection that is not established wins if it is the fastest, and of two transports with
one name the one that does not report in time has no entry. -/
theorem race_outcome_wrong :
    (¬ ∀ (debug : Duration → String) (transports : List Transport) (channel : Channel transports)
        (timeout : Duration) (returned : Instant) (outcome : RaceOutcome),
        race debug transports channel timeout=some (returned, outcome) →
        WinnerRight (reportedConnections timeout transports) outcome.winner) ∧
    ¬ ∀ (debug : Duration → String) (transports : List Transport) (channel : Channel transports)
        (timeout : Duration) (returned : Instant) (outcome : RaceOutcome),
        race debug transports channel timeout=some (returned, outcome) →
        outcome.attempts.Perm (transports.map (Transport.entry debug timeout)) := by
  constructor
  · intro h
    have hwinner := h (fun _ => "2s") [answering "tor" 0 true 40,answering "dns" 0 false 10]
      (answers _ (by decide)) (fromSecs 2) 0
      ⟨some ⟨"dns",false,10,⟨localhostV4,0⟩⟩,
        [⟨"tor",true,40,none⟩,⟨"dns",false,10,none⟩]⟩ (by rfl)
    exact absurd hwinner.2.1 (by decide)
  · intro h
    have hentries := h (fun _ => "2s") [answering "tor" (fromSecs 1) true 40,
        answering "tor" (fromSecs 3) true 10]
      (answers _ (by decide)) (fromSecs 2) (fromSecs 3)
      ⟨some ⟨"tor",true,40,⟨localhostV4,0⟩⟩,[⟨"tor",true,40,none⟩]⟩ (by rfl)
    exact absurd hentries.length_eq (by decide)

/-- The loop of a race is over by the deadline. The race itself returns by then exactly if every
connect call is over by then, since it joins every thread. -/
theorem race_returns_in_time_iff (transports : List Transport) (channel : Channel transports)
    (timeout : Duration) :
    (receive debug timeout (join 0 transports) [] [] 0 channel.reports).endedAt ≤ timeout ∧
    ((∃ returned outcome, race debug transports channel timeout=some (returned, outcome) ∧
        returned ≤ timeout) ↔
      ∀ t∈transports, ∃ ended, t.endsAt=some ended ∧ ended ≤ timeout) := by
  obtain ⟨ended,hended,hreceived⟩ :=
    receive_start debug timeout (join 0 transports) channel.ordered
  refine ⟨by rwa [hreceived],?_⟩
  have hjoin := join_le_iff transports ended timeout
  rw [and_iff_right hended] at hjoin
  rw [← hjoin]
  simp [race,hreceived]

/-- A race does not return while a call goes on, whether the call ends late or never. -/
theorem race_returns_late :
    (¬ ∀ (debug : Duration → String) (transports : List Transport) (channel : Channel transports)
        (timeout : Duration), (∀ t∈transports, t.endsAt.isSome=true) →
        ∃ returned outcome, race debug transports channel timeout=some (returned, outcome) ∧
          returned ≤ timeout) ∧
    ¬ ∀ (debug : Duration → String) (transports : List Transport) (channel : Channel transports)
        (timeout : Duration), ∃ returned outcome,
          race debug transports channel timeout=some (returned, outcome) := by
  constructor
  · intro h
    obtain ⟨returned,outcome,hrace,hle⟩ := h (fun _ => "2s") [answering "tor" (fromSecs 9) true 40]
      (answers _ (by decide)) (fromSecs 2) (by decide)
    have hreturned : fromSecs 9=returned := congrArg Prod.fst (Option.some.inj hrace)
    subst hreturned
    exact absurd hle (by decide)
  · intro h
    obtain ⟨returned,outcome,hrace⟩ := h (fun _ => "2s") [silent "tor"]
      (answers _ (by decide)) (fromSecs 2)
    exact absurd hrace nofun

end AetherX.Multipath
