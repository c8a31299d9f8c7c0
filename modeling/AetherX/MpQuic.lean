import Mathlib.Algebra.GroupWithZero.Nat
import Mathlib.Data.List.AList
import AetherX.Supervisor

/-! A session over several network paths, used by several threads. The paths and the list of the
active interfaces stand under a lock each, and a call takes the two one after the other. -/
namespace AetherX.MpQuic
open Supervisor (Instant Duration)
open Machine List

inductive InterfaceKind where
  | wifi
  | cellular
  | ethernet
  deriving DecidableEq

structure Interface where
  name : String
  kind : InterfaceKind
  ip : String
  deriving DecidableEq

structure MpQuicPath where
  interface : Interface
  rttMs : UInt32
  lossRate : Float
  cwnd : UInt32
  lastUsed : Instant
  bytesSent : UInt64

structure Chunk where
  interface : String
  length : Nat
  latency : Duration
  deriving DecidableEq

structure MpQuicSession where
  sessionId : String
  paths : AList fun _ : String => MpQuicPath
  activeInterfaces : List String
  totalBytes : UInt64
  migrations : UInt64
  createdAt : Instant

def fromMillis (n : Nat) : Duration := n*1000000

/- The part of the data that goes to the i-th of n interfaces. -/
def share (dataLen n i : Nat) : Nat := dataLen/n+if i=0 then dataLen%n else 0

/- An interface that has no path any more is passed over. -/
def distribute (paths : AList fun _ : String => MpQuicPath) (names : List String) (dataLen : Nat) :
    List Chunk :=
  names.zipIdx.filterMap fun (name, i) => (paths.lookup name).map fun path =>
    ⟨name,share dataLen names.length i,fromMillis (path.rttMs.toNat/2+5)⟩

namespace MpQuicSession
def new (sessionId : String) (now : Instant) : MpQuicSession := ⟨sessionId,∅,[],0,0,now⟩

def insertPath (s : MpQuicSession) (interface : Interface) (rttMs : UInt32) (now : Instant) :
    MpQuicSession :=
  { s with paths := s.paths.insert interface.name ⟨interface,rttMs,0.0,10,now,0⟩ }

def activate (s : MpQuicSession) (name : String) : MpQuicSession :=
  if name∈s.activeInterfaces then s
  else { s with activeInterfaces := s.activeInterfaces++[name] }

def erasePath (s : MpQuicSession) (name : String) : MpQuicSession :=
  { s with paths := s.paths.erase name }

def deactivate (s : MpQuicSession) (name : String) : MpQuicSession :=
  { s with activeInterfaces := s.activeInterfaces.filter fun n => n≠name }

def addTotal (s : MpQuicSession) (dataLen : Nat) : MpQuicSession :=
  { s with totalBytes := s.totalBytes+dataLen.toUInt64 }

end MpQuicSession

/- Where a call stands between its two locks, with what it still needs. -/
inductive Stage where
  | idle
  | adding (name : String)
  | removing (name : String)
  | sending (names : List String) (dataLen : Nat)
  deriving DecidableEq

/- A send that has returned: what it was to send, and the chunks. -/
structure Sent where
  dataLen : Nat
  chunks : List Chunk

structure System (τ : Type*) where
  session : MpQuicSession
  task : τ → Stage
  sent : List Sent

/- The first section of a call, and the one that ends it. -/
inductive Section (τ : Type*) where
  | addPath (t : τ) (interface : Interface) (rttMs : UInt32) (now : Instant)
  | removePath (t : τ) (name : String)
  | sendBonded (t : τ) (dataLen : Nat)
  | finish (t : τ)

section
variable {τ : Type*} [DecidableEq τ]

namespace System
def goTo (s : System τ) (t : τ) (session : MpQuicSession) (stage : Stage) : System τ :=
  { s with session := session, task := Function.update s.task t stage }

/- A thread that is between its locks begins no other call. -/
def step (s : System τ) : Section τ → System τ
  | .addPath t interface rttMs now =>
    match s.task t with
    | .idle => s.goTo t (s.session.insertPath interface rttMs now) (.adding interface.name)
    | _ => s
  | .removePath t name =>
    match s.task t with
    | .idle =>
      if (s.session.paths.lookup name).isSome then
        s.goTo t (s.session.erasePath name) (.removing name)
      else s.goTo t (s.session.erasePath name) .idle
    | _ => s
  | .sendBonded t dataLen =>
    match s.task t with
    | .idle =>
      if s.session.activeInterfaces.isEmpty then s
      else s.goTo t s.session (.sending s.session.activeInterfaces dataLen)
    | _ => s
  | .finish t =>
    match s.task t with
    | .idle => s
    | .adding name => s.goTo t (s.session.activate name) .idle
    | .removing name => s.goTo t (s.session.deactivate name) .idle
    | .sending names dataLen =>
      { s.goTo t (s.session.addTotal dataLen) .idle with
        sent := s.sent++[⟨dataLen,distribute s.session.paths names dataLen⟩] }

def start (sessionId : String) (now : Instant) : System τ := ⟨.new sessionId now,fun _ => .idle,[]⟩

def run (sessionId : String) (now : Instant) (sections : List (Section τ)) : System τ :=
  sections.foldl step (start sessionId now)

def Quiet (s : System τ) : Prop := ∀ t, s.task t = .idle

/- No call on the interface stands between its locks, but perhaps that of one thread. -/
def Settled (s : System τ) (name : String) : Prop :=
  ∀ t, s.task t ≠ .adding name ∧ s.task t ≠ .removing name

def SettledBut (s : System τ) (t : τ) (name : String) : Prop :=
  ∀ u, u≠t → s.task u ≠ .adding name ∧ s.task u ≠ .removing name

end System

/-- Every send that returned has sent all its data, and an interface on which no call is under way
is active exactly if it has a path. -/
structure Sound (s : System τ) : Prop where
  sent : ∀ r∈s.sent, (r.chunks.map Chunk.length).sum=r.dataLen
  agree : ∀ name, s.Settled name →
    (name∈s.session.activeInterfaces ↔ name∈s.session.paths)

/- The last call on an interface to end finds the path as it left it, and a send finds a path for
   every interface that is to carry some of the data. -/
def Orderly (s : System τ) : Section τ → Prop
  | .finish t =>
    match s.task t with
    | .adding name => s.SettledBut t name → name∈s.session.paths
    | .removing name => s.SettledBut t name → name∉s.session.paths
    | .sending names dataLen =>
      ∀ name i, (name, i)∈names.zipIdx → name∉s.session.paths →
        share dataLen names.length i=0
    | .idle => True
  | _ => True
end

section
variable {α : Type*}

theorem sum_map_filter_add (l : List α) (p : α → Bool) (f : α → Nat) :
    ((l.filter p).map f).sum+((l.filter fun a => !p a).map f).sum=(l.map f).sum := by
  induction l with
  | nil => rfl
  | cons a l ih =>
    cases hp : p a <;> simp [hp] <;> omega

/-- What a selection adds up to is everything exactly if nothing counts that is left out. -/
theorem sum_filter_eq_iff (l : List α) (p : α → Bool) (f : α → Nat) :
    ((l.filter p).map f).sum=(l.map f).sum ↔ ∀ a∈l, p a=false → f a=0 := by
  have hsplit := sum_map_filter_add l p f
  have hzero : ((l.filter fun a => !p a).map f).sum=0 ↔ ∀ a∈l, p a=false → f a=0 := by
    rw [List.sum_eq_zero_iff_forall_eq_nat,List.forall_mem_map]
    simp only [List.mem_filter,Bool.not_eq_true',and_imp]
  rw [← hzero]
  omega

theorem sum_share_succ (dataLen n : Nat) :
    ((range (n+1)).map (share dataLen (n+1))).sum=dataLen := by
  have hrest : ∀ i, share dataLen (n+1) (i+1)=dataLen/(n+1) := fun _ => rfl
  have hmap : ((range n).map fun i => share dataLen (n+1) (i+1)) =
      replicate n (dataLen/(n+1)) := by
    simp only [hrest,map_const',length_range]
  rw [range_succ_eq_map,map_cons,map_map,sum_cons]
  change share dataLen (n+1) 0+((range n).map fun i => share dataLen (n+1) (i+1)).sum=_
  have hdiv := Nat.div_add_mod dataLen (n+1)
  rw [Nat.succ_mul] at hdiv
  rw [hmap,sum_replicate_nat,share,if_pos rfl]
  omega

theorem lengths_distribute (paths : AList fun _ : String => MpQuicPath) (names : List String)
    (dataLen : Nat) :
    (distribute paths names dataLen).map Chunk.length =
      (names.zipIdx.filter fun p => (paths.lookup p.1).isSome).map
        fun p => share dataLen names.length p.2 := by
  rw [distribute]
  generalize names.length=n
  induction names.zipIdx with
  | nil => rfl
  | cons p l ih =>
    cases hlookup : paths.lookup p.1 with
    | none => simpa [hlookup] using ih
    | some path => simpa [hlookup] using ih

/-- A send sends everything exactly if the interfaces without a path were to carry nothing. -/
theorem sum_distribute_iff (paths : AList fun _ : String => MpQuicPath) {names : List String}
    (hnames : names≠[]) (dataLen : Nat) :
    ((distribute paths names dataLen).map Chunk.length).sum=dataLen ↔
      ∀ name i, (name, i)∈names.zipIdx → name∉paths → share dataLen names.length i=0 := by
  have htotal : (names.zipIdx.map fun p => share dataLen names.length p.2).sum=dataLen := by
    obtain ⟨n,hn⟩ := Nat.exists_eq_succ_of_ne_zero (mt length_eq_zero_iff.mp hnames)
    have hindices : names.zipIdx.map Prod.snd=range names.length := by
      rw [zipIdx_map_snd,range_eq_range']
    calc (names.zipIdx.map fun p => share dataLen names.length p.2).sum
        = ((names.zipIdx.map Prod.snd).map (share dataLen names.length)).sum := by
          rw [map_map]
          rfl
      _=dataLen := by rw [hindices,hn,sum_share_succ]
  have hiff := sum_filter_eq_iff names.zipIdx (fun p => (paths.lookup p.1).isSome)
    fun p => share dataLen names.length p.2
  rw [htotal] at hiff
  rw [lengths_distribute,hiff]
  simp only [Prod.forall,Option.isSome_eq_false_iff,Option.isNone_iff_eq_none,
    AList.lookup_eq_none]
end

section
variable {τ : Type*} [DecidableEq τ] {s : System τ} {t : τ} {name : String}

@[simp] theorem goTo_task_self (s : System τ) (t : τ) (session : MpQuicSession) (stage : Stage) :
    (s.goTo t session stage).task t=stage :=
  Function.update_self ..

theorem goTo_task_of_ne (s : System τ) {t u : τ} (hut : u≠t) (session : MpQuicSession)
    (stage : Stage) : (s.goTo t session stage).task u=s.task u :=
  Function.update_of_ne hut ..

theorem settled_goTo (s : System τ) (t : τ) (session : MpQuicSession) (stage : Stage)
    (name : String) :
    (s.goTo t session stage).Settled name ↔
      s.SettledBut t name ∧ stage ≠ .adding name ∧ stage ≠ .removing name := by
  constructor
  · intro h
    refine ⟨fun u hut => ?_,?_⟩
    · have hu := h u
      rwa [goTo_task_of_ne s hut] at hu
    · have ht := h t
      rwa [goTo_task_self] at ht
  · intro h u
    by_cases hut : u=t
    · rw [hut,goTo_task_self]
      exact h.2
    · rw [goTo_task_of_ne s hut]
      exact h.1 u hut

/-- Only the one call is left to ask about. -/
theorem settled_of_but {stage : Stage} (h : s.SettledBut t name) (hstage : s.task t=stage)
    (hadding : stage ≠ .adding name) (hremoving : stage ≠ .removing name) : s.Settled name := by
  intro u
  by_cases hut : u=t
  · rw [hut,hstage]
    exact ⟨hadding,hremoving⟩
  · exact h u hut

theorem Sound.add (h : Sound s) (hidle : s.task t = .idle) (interface : Interface) (rttMs : UInt32)
    (now : Instant) :
    Sound (s.goTo t (s.session.insertPath interface rttMs now) (.adding interface.name)) := by
  refine ⟨h.sent,fun name hname => ?_⟩
  obtain ⟨hbut,hadding,-⟩ := (settled_goTo ..).mp hname
  have hne : name≠interface.name := fun heq => hadding (by rw [heq])
  have hold := h.agree name (settled_of_but hbut hidle nofun nofun)
  change name∈s.session.activeInterfaces ↔ name∈s.session.paths.insert _ _
  rw [hold,AList.mem_insert,or_iff_right hne]

theorem Sound.remove (h : Sound s) (hidle : s.task t = .idle) (name : String) :
    Sound (s.goTo t (s.session.erasePath name) (.removing name)) := by
  refine ⟨h.sent,fun other hother => ?_⟩
  obtain ⟨hbut,-,hremoving⟩ := (settled_goTo ..).mp hother
  have hne : other≠name := fun heq => hremoving (by rw [heq])
  have hold := h.agree other (settled_of_but hbut hidle nofun nofun)
  change other∈s.session.activeInterfaces ↔ other∈s.session.paths.erase name
  rw [hold,AList.mem_erase,and_iff_right hne]

/- A call that ends leaves the two in agreement on its interface, or another call on it is under
   way. -/
theorem Sound.end_iff (h : Sound s) (hstage : s.task t = .adding name ∨ s.task t = .removing name)
    (session : MpQuicSession) (hpaths : session.paths=s.session.paths)
    (hother : ∀ other, other≠name →
      (other∈session.activeInterfaces ↔ other∈s.session.activeInterfaces)) :
    Sound (s.goTo t session .idle) ↔
      (s.SettledBut t name → (name∈session.activeInterfaces ↔ name∈s.session.paths)) := by
  have hidle : ∀ n, Stage.idle ≠ .adding n ∧ Stage.idle ≠ .removing n := fun _ =>
    ⟨Stage.noConfusion,Stage.noConfusion⟩
  constructor
  · intro h' hbut
    rw [← hpaths]
    exact h'.agree name ((settled_goTo ..).mpr ⟨hbut,hidle name⟩)
  · intro hname
    refine ⟨h.sent,fun other hsettled => ?_⟩
    obtain ⟨hbut,-⟩ := (settled_goTo ..).mp hsettled
    change other∈session.activeInterfaces ↔ other∈session.paths
    rw [hpaths]
    by_cases hne : other=name
    · rw [hne] at hbut ⊢
      exact hname hbut
    · rw [hother other hne]
      refine h.agree other ?_
      rcases hstage with hstage | hstage
      · exact settled_of_but hbut hstage (fun heq => hne (Stage.adding.inj heq).symm) nofun
      · exact settled_of_but hbut hstage nofun fun heq => hne (Stage.removing.inj heq).symm

theorem Sound.send_iff (h : Sound s) {names : List String} {dataLen : Nat}
    (hstage : s.task t = .sending names dataLen) (hnames : names≠[]) :
    Sound { s.goTo t (s.session.addTotal dataLen) .idle with
        sent := s.sent++[⟨dataLen,distribute s.session.paths names dataLen⟩] } ↔
      ∀ name i, (name, i)∈names.zipIdx → name∉s.session.paths →
        share dataLen names.length i=0 := by
  rw [← sum_distribute_iff s.session.paths hnames]
  constructor
  · intro h'
    exact h'.sent ⟨dataLen,distribute s.session.paths names dataLen⟩ (by simp)
  · intro hsum
    refine ⟨fun r hr => ?_,fun name hname => h.agree name ?_⟩
    · rcases mem_append.mp hr with hold | hnew
      · exact h.sent r hold
      · rw [mem_singleton.mp hnew]
        exact hsum
    · have hbut := ((settled_goTo s t (s.session.addTotal dataLen) .idle name).mp hname).1
      exact settled_of_but hbut hstage nofun nofun

/- The list has no name twice, and a send has read some. -/
structure Formed (s : System τ) : Prop where
  once : s.session.activeInterfaces.Nodup
  names : ∀ t names dataLen, s.task t = .sending names dataLen → names≠[]

theorem Formed.goTo (h : Formed s) {session : MpQuicSession} {stage : Stage}
    (honce : session.activeInterfaces.Nodup)
    (hstage : ∀ names dataLen, stage = .sending names dataLen → names≠[]) :
    Formed (s.goTo t session stage) := by
  refine ⟨honce,fun u names dataLen hu => ?_⟩
  rcases update_eq_iff.mp hu with ⟨-,hnew⟩ | ⟨-,hold⟩
  · exact hstage names dataLen hnew
  · exact h.names u names dataLen hold

theorem nodup_activate {session : MpQuicSession} (h : session.activeInterfaces.Nodup)
    (name : String) : (session.activate name).activeInterfaces.Nodup := by
  rw [MpQuicSession.activate]
  split_ifs with hmem
  · exact h
  · rw [← concat_eq_append]
    exact h.concat hmem

variable (session : MpQuicSession)

theorem mem_activate (name other : String) :
    other∈(session.activate name).activeInterfaces ↔
      other=name ∨ other∈session.activeInterfaces := by
  rw [MpQuicSession.activate]
  split_ifs with hmem
  · exact ⟨Or.inr,fun h => h.elim (fun heq => by rwa [heq]) id⟩
  · rw [mem_append,mem_singleton,or_comm]

theorem activate_paths (name : String) : (session.activate name).paths=session.paths := by
  rw [MpQuicSession.activate]
  split_ifs <;> rfl

theorem mem_deactivate (name other : String) :
    other∈(session.deactivate name).activeInterfaces ↔
      other∈session.activeInterfaces ∧ other≠name := by
  rw [MpQuicSession.deactivate,List.mem_filter,decide_eq_true_eq]

theorem Formed.step (h : Formed s) (sec : Section τ) : Formed (s.step sec) := by
  have hno : ∀ {stage : Stage}, (∀ names dataLen, stage ≠ .sending names dataLen) →
      ∀ names dataLen, stage = .sending names dataLen → names≠[] :=
    fun hstage names dataLen heq => absurd heq (hstage names dataLen)
  cases sec with
  | addPath t interface rttMs now =>
    rw [System.step]
    split
    · exact h.goTo h.once (hno fun _ _ => Stage.noConfusion)
    · exact h
  | removePath t name =>
    rw [System.step]
    split
    · split_ifs
      · exact h.goTo h.once (hno fun _ _ => Stage.noConfusion)
      · exact h.goTo h.once (hno fun _ _ => Stage.noConfusion)
    · exact h
  | sendBonded t dataLen =>
    rw [System.step]
    split
    · split_ifs with hempty
      · exact h
      · refine h.goTo h.once fun names dataLen heq => ?_
        rw [← (Stage.sending.inj heq).1]
        simpa using hempty
    · exact h
  | finish t =>
    rw [System.step]
    split
    · exact h
    next name _ => exact h.goTo (nodup_activate h.once name) (hno fun _ _ => Stage.noConfusion)
    next name _ => exact h.goTo (h.once.filter _) (hno fun _ _ => Stage.noConfusion)
    next names dataLen _ =>
      have hnext : Formed (s.goTo t (s.session.addTotal dataLen) .idle) :=
        h.goTo h.once (hno fun _ _ => Stage.noConfusion)
      exact ⟨hnext.once,hnext.names⟩

theorem Sound.finish_iff (hformed : Formed s) (h : Sound s) (t : τ) :
    Sound (s.step (.finish t)) ↔ Orderly s (.finish t) := by
  cases hstage : s.task t with
  | idle => simp [System.step,Orderly,hstage,h]
  | adding name =>
    have hiff := h.end_iff (Or.inl hstage) _ (activate_paths s.session name) fun other hne => by
      rw [mem_activate,or_iff_right hne]
    simpa [System.step,Orderly,hstage,mem_activate] using hiff
  | removing name =>
    have hiff := h.end_iff (Or.inr hstage) (s.session.deactivate name) rfl
      fun other hne => by rw [mem_deactivate,and_iff_left hne]
    simpa [System.step,Orderly,hstage,mem_deactivate] using hiff
  | sending names dataLen =>
    simpa [System.step,Orderly,hstage] using
      h.send_iff hstage (hformed.names t names dataLen hstage)

theorem Sound.step_iff (hformed : Formed s) (h : Sound s) (sec : Section τ) :
    Sound (s.step sec) ↔ Orderly s sec := by
  cases sec with
  | addPath t interface rttMs now =>
    refine iff_of_true ?_ trivial
    rw [System.step]
    split
    next hidle => exact h.add hidle interface rttMs now
    next => exact h
  | removePath t name =>
    refine iff_of_true ?_ trivial
    rw [System.step]
    split
    next hidle =>
      split_ifs with hsome
      · exact h.remove hidle name
      · -- nothing was there to erase
        have hnot : name∉s.session.paths := fun hmem => hsome (AList.lookup_isSome.mpr hmem)
        refine ⟨h.sent,fun other hother => ?_⟩
        change other∈s.session.activeInterfaces ↔ other∈s.session.paths.erase name
        have hsettled := settled_of_but ((settled_goTo ..).mp hother).1 hidle nofun nofun
        rw [h.agree other hsettled,AList.mem_erase]
        exact ⟨fun hmem => ⟨fun heq => hnot (by rwa [← heq]),hmem⟩,And.right⟩
    next => exact h
  | sendBonded t dataLen =>
    refine iff_of_true ?_ trivial
    rw [System.step]
    split
    next hidle =>
      split_ifs
      · exact h
      · refine ⟨h.sent,fun name hname => ?_⟩
        exact h.agree name (settled_of_but ((settled_goTo ..).mp hname).1 hidle nofun nofun)
    next => exact h
  | finish t => exact h.finish_iff hformed t
end

section
variable {τ : Type*} [DecidableEq τ]

theorem formed_run (sessionId : String) (now : Instant) (sections : List (Section τ)) :
    Formed (System.run sessionId now sections) :=
  foldlRecOn sections System.step ⟨.nil,by simp [System.start]⟩ fun _ hs sec _ => hs.step sec

/-- The session is sound all along an interleaving exactly when every section of it is orderly, and
a sound session that no call is using lists exactly the interfaces that have a path, each once. -/
theorem session_consistent_iff (sessionId : String) (now : Instant) (sections : List (Section τ)) :
    ((∀ before after, sections=before++after → Sound (System.run sessionId now before)) ↔
      ∀ before sec after, sections=before++sec::after →
        Orderly (System.run sessionId now before) sec) ∧
    (Sound (System.run sessionId now sections) → (System.run sessionId now sections).Quiet →
      (System.run sessionId now sections).session.activeInterfaces.Perm
        (System.run sessionId now sections).session.paths.keys) := by
  constructor
  · have hformed : Formed (System.start sessionId now : System τ) := formed_run sessionId now []
    have hsound : Sound (System.start sessionId now : System τ) :=
      ⟨by simp [System.start],by simp [System.start,MpQuicSession.new]⟩
    exact foldl_along_iff Formed (fun s sec h => h.step sec)
      (fun s sec hf h => h.step_iff hf sec) sections hformed hsound
  · intro h hquiet
    refine (perm_ext_iff_of_nodup (formed_run sessionId now sections).once
      (AList.keys_nodup _)).mpr fun name => ?_
    rw [← AList.mem_keys]
    refine h.agree name fun t => ?_
    rw [hquiet t]
    exact ⟨Stage.noConfusion,Stage.noConfusion⟩
end

def wlan0 : Interface := ⟨"wlan0",.wifi, "192.168.1.100"⟩

/-- A path that is removed after a send has read the list takes its chunk with it, and a call that
adds a path may list it after another one has removed it again. -/
theorem bonded_session_inconsistent :
    (¬ ∀ sections : List (Section Bool), ∀ r∈(System.run "session-123" 0 sections).sent,
      (r.chunks.map Chunk.length).sum=r.dataLen) ∧
    ¬ ∀ sections : List (Section Bool), (System.run "session-123" 0 sections).Quiet →
      (System.run "session-123" 0 sections).session.activeInterfaces.Perm
        (System.run "session-123" 0 sections).session.paths.keys := by
  constructor
  · intro h
    have hlost := h [.addPath true wlan0 20 0,.finish true,.sendBonded true 2800,
      .removePath false "wlan0",.finish false,.finish true] ⟨2800,[]⟩
    have hsent : ((System.run "session-123" 0 [.addPath true wlan0 20 0,.finish true,
        .sendBonded true 2800,.removePath false "wlan0",.finish false,.finish true]).sent : List Sent) =
        [⟨2800,[]⟩] := by rfl
    exact absurd (hlost (by rw [hsent]; exact mem_singleton_self _)) (by decide)
  · intro h
    have hperm := h [.addPath true wlan0 20 0,.removePath false "wlan0",.finish false,
      .finish true] (by intro t; cases t <;> rfl)
    exact absurd hperm.length_eq (by decide +kernel)

end AetherX.MpQuic
