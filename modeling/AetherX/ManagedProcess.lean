import AetherX.Supervisor
import Mathlib.Data.List.AList

/-! The adapter that owns real child processes, under the watcher of the supervisor. The
operating system's answers are arguments of the calls that ask for them. -/
namespace AetherX.ManagedProcess
open Supervisor Machine

/- A JSON value, with the contents that the launch contract reads. -/
inductive Value where
  | null
  | bool
  | number
  | string (s : String)
  | array
  | object (fields : List (String × Value))

structure ProtocolSpec where
  protocolId : String
  opaqueConfig : Value
  listenAddr : String

structure CoreConfig where
  instanceId : String
  kind : CoreKind
  protocol : ProtocolSpec
  maxRestarts : UInt32
  restartWindowSecs : UInt32

inductive IpAddr where
  | v4 (bits : BitVec 32)
  | v6 (bits : BitVec 128)
  deriving DecidableEq

structure SocketAddr where
  ip : IpAddr
  port : UInt16
  deriving DecidableEq

def localhostV4 : IpAddr := .v4 0x7f000001#32
def localhostV6 : IpAddr := .v6 1#128

/- What the adapter asks the host and the standard library for. -/
structure Host where
  binaryVar : Option String
  isBlank : String → Bool
  isFile : String → Except IoError Bool
  parseSocketAddr : String → Except String SocketAddr
  debugDuration : Duration → String

structure ManagedProcessInstance where
  pid : Nat
  config : CoreConfig
  probeAddress : SocketAddr

structure Spawned where
  instanceId : String
  command : List String

/- The adapter with the processes of the host: the n-th spawned process has the pid n. -/
structure ManagedProcessAdapter where
  kind : CoreKind
  defaultBinary : String
  instances : AList fun _ : String => ManagedProcessInstance
  spawned : List Spawned
  exited : List Nat

inductive Waited where
  | exited
  | failed (source : IoError)
  | timedOut

structure RestartAnswers where
  kill : Except IoError Unit
  wait : Waited
  spawn : Except IoError Unit

structure HealthAnswers where
  tryWaitError : Option IoError
  connects : Bool

def kindName : CoreKind → String
  | .unspecified => "Unspecified"
  | .xray => "Xray"
  | .singBox => "SingBox"
  | .amneziaWg => "AmneziaWg"
  | .naive => "Naive"
  | .persis => "Persis"

def loopbackProbeAddress (host : Host) (listenAddr : String) (kind : CoreKind) :
    Except SupervisorError SocketAddr :=
  match host.parseSocketAddr listenAddr with
  | .error error => .error (.invalidConfig kind
      ("protocol.listen_addr must be an explicit socket address: " ++ error))
  | .ok address =>
    if address.port=0 then
      .error (.invalidConfig kind "protocol.listen_addr must use a non-zero listener port")
    else
      match address.ip with
      | .v4 bits => .ok ⟨if bits=0 then localhostV4 else .v4 bits,address.port⟩
      | .v6 bits => .ok ⟨if bits=0 then localhostV6 else .v6 bits,address.port⟩

namespace ManagedProcessAdapter
def xray : ManagedProcessAdapter := ⟨.xray, "xray",∅,[],[]⟩

def singBox : ManagedProcessAdapter := ⟨.singBox, "sing-box",∅,[],[]⟩

variable (host : Host) (a : ManagedProcessAdapter)

def binary : String :=
  match host.binaryVar with
  | some value => if host.isBlank value then a.defaultBinary else value
  | none => a.defaultBinary

def launchContract (config : CoreConfig) : Except SupervisorError (String × SocketAddr) :=
  if config.kind≠a.kind then
    .error (.invalidConfig a.kind ("adapter received config for " ++ kindName config.kind))
  else
    match config.protocol.opaqueConfig with
    | .object fields =>
      match fields.lookup "config_path" with
      | some (.string configPath) =>
        if configPath.toList.head? ≠ some '/' then
          .error (.invalidConfig a.kind "opaque_config.config_path must be absolute")
        else
          match host.isFile configPath with
          | .error error => .error (.invalidConfig a.kind
              ("cannot read config_path " ++ configPath ++ ": " ++ error.message))
          | .ok false =>
            .error (.invalidConfig a.kind "opaque_config.config_path must name a regular file")
          | .ok true =>
            (loopbackProbeAddress host config.protocol.listenAddr a.kind).map (configPath, ·)
      | _ => .error (.invalidConfig a.kind "opaque_config.config_path is required")
    | _ => .error (.invalidConfig a.kind "opaque_config must be an object containing config_path")

def spawnProcess (config : CoreConfig) (configPath : String) (probeAddress : SocketAddr)
    (spawn : Except IoError Unit) :
    ManagedProcessAdapter × Except SupervisorError ManagedProcessInstance :=
  match spawn with
  | .error source => (a, .error (.coreExited config.instanceId source))
  | .ok () =>
    ({ a with spawned := a.spawned++[⟨config.instanceId,[a.binary host, "run", "-c",configPath]⟩] },
      .ok ⟨a.spawned.length,config,probeAddress⟩)

def terminate (instanceId : String) (process : ManagedProcessInstance) (timeout : Duration)
    (kill : Except IoError Unit) (wait : Waited) :
    ManagedProcessAdapter × Except SupervisorError Unit :=
  match kill with
  | .error source => (a, .error (.coreExited instanceId source))
  | .ok () =>
    match wait with
    | .exited => ({ a with exited := process.pid::a.exited }, .ok ())
    | .failed source => (a, .error (.coreExited instanceId source))
    | .timedOut => (a, .error (.generic ("core " ++ instanceId ++ " did not exit within " ++
        host.debugDuration timeout ++ " after forced termination")))

def start (config : CoreConfig) (spawn : Except IoError Unit) :
    ManagedProcessAdapter × Except SupervisorError CoreHandle :=
  if (a.instances.lookup config.instanceId).isSome then
    (a, .error (.instanceExists config.instanceId))
  else
    match a.launchContract host config with
    | .error e => (a, .error e)
    | .ok (configPath, probeAddress) =>
      match a.spawnProcess host config configPath probeAddress spawn with
      | (a, .error e) => (a, .error e)
      | (a, .ok process) =>
        ({ a with instances := a.instances.insert config.instanceId process },
          .ok ⟨config.instanceId,a.kind,config.protocol.protocolId⟩)

def stop (handle : CoreHandle) (drain : Bool) (timeout : Duration) (kill : Except IoError Unit)
    (wait : Waited) : ManagedProcessAdapter × Except SupervisorError Unit :=
  if drain then (a, .error (.notHotSwapCapable handle.instanceId))
  else
    match a.instances.lookup handle.instanceId with
    | none => (a, .error (.instanceNotFound handle.instanceId))
    | some process =>
      { a with instances := a.instances.erase handle.instanceId }.terminate host handle.instanceId
        process timeout kill wait

/- The instance is taken out of the map before it is terminated, and put back only after
   its replacement was spawned. -/
def restart (handle : CoreHandle) (answers : RestartAnswers) :
    ManagedProcessAdapter × Except SupervisorError Unit :=
  match a.instances.lookup handle.instanceId with
  | none => (a, .error (.instanceNotFound handle.instanceId))
  | some process =>
    match { a with instances := a.instances.erase handle.instanceId }.terminate host
        handle.instanceId process (fromSecs 2) answers.kill answers.wait with
    | (a, .error e) => (a, .error e)
    | (a, .ok ()) =>
      match a.launchContract host process.config with
      | .error e => (a, .error e)
      | .ok (configPath, probeAddress) =>
        match a.spawnProcess host process.config configPath probeAddress answers.spawn with
        | (a, .error e) => (a, .error e)
        | (a, .ok replacement) =>
          ({ a with instances := a.instances.insert handle.instanceId replacement }, .ok ())

/- A probe that finds the process gone forgets the instance. -/
def health (handle : CoreHandle) (answers : HealthAnswers) :
    ManagedProcessAdapter × Except SupervisorError HealthStatus :=
  match a.instances.lookup handle.instanceId with
  | none => (a, .error (.instanceNotFound handle.instanceId))
  | some process =>
    match answers.tryWaitError with
    | some source => (a, .error (.coreExited handle.instanceId source))
    | none =>
      if process.pid∈a.exited then
        ({ a with instances := a.instances.erase handle.instanceId }, .ok ⟨.failed,0⟩)
      else if answers.connects then (a, .ok ⟨.running,1⟩)
      else (a, .ok ⟨.degraded,0⟩)

end ManagedProcessAdapter

/- The supervised instance and the adapter it runs on. -/
structure Node where
  watched : Watched
  adapter : ManagedProcessAdapter

/- Apart from the watcher's own calls: a process exits, someone else probes the core or
   restarts it, and the supervisor's calls that do not reach the adapter. -/
inductive NodeEvent where
  | exit (pid : Nat)
  | probe (answers : HealthAnswers)
  | restartCore (answers : RestartAnswers) (ready : Bool)
  | supervise (event : Event)
  | health (answers : HealthAnswers)
  | restart (answers : RestartAnswers)

def Internal : Event → Bool
  | .tick _ | .wake | .check | .hotSwap _ | .applyPolicy _ => true
  | .health _ | .restarted _ | .restartCore => false

namespace Node
variable (host : Host) (n : Node)

/- The watcher asks the adapter it found under the kind of its record. -/
def superviseStep (event : Event) : Option Node :=
  (n.watched.next (fun kind => kind=n.adapter.kind) event).map ({ n with watched := · })

def healthStep (answers : HealthAnswers) : Option Node :=
  match n.watched.watcher with
  | .probing handle _ _ =>
    let (adapter, result) := n.adapter.health handle answers
    { n with adapter := adapter }.superviseStep (.health result)
  | _ => none

def restartStep (answers : RestartAnswers) : Option Node :=
  match n.watched.watcher with
  | .restarting handle =>
    let (adapter, result) := n.adapter.restart host handle answers
    { n with adapter := adapter }.superviseStep (.restarted result)
  | _ => none

def next : NodeEvent → Option Node
  | .exit pid => some { n with adapter := { n.adapter with exited := pid::n.adapter.exited } }
  | .probe answers => some { n with adapter := (n.adapter.health n.watched.record.handle answers).1 }
  | .restartCore answers ready =>
    match n.adapter.restart host n.watched.record.handle answers with
    | (adapter, .error _) => some { n with adapter := adapter }
    | (adapter, .ok ()) =>
      if ready then { n with adapter := adapter }.superviseStep .restartCore
      else some { n with adapter := adapter }
  | .supervise event => if Internal event then n.superviseStep event else none
  | .health answers => n.healthStep answers
  | .restart answers => n.restartStep host answers

def Step (n : Node) (event : NodeEvent) (n' : Node) : Prop := n.next host event=some n'

/- The rest of the watcher's round, from its probe on. -/
def react (probe : HealthAnswers) (answers : RestartAnswers) : Option Node :=
  (n.healthStep probe).bind fun n => (n.superviseStep .check).bind fun n => n.restartStep host answers

end Node

/-- A new process runs for the instance. -/
def Replaced (a a' : ManagedProcessAdapter) (instanceId : String) : Prop :=
  ∃ replacement spawned, a'.instances.lookup instanceId=some replacement ∧
    replacement.pid=a.spawned.length ∧ a'.spawned=a.spawned++[spawned]

section
variable {host : Host} {a : ManagedProcessAdapter} {handle : CoreHandle}

theorem not_replaced_of_spawned_eq {a' : ManagedProcessAdapter} {instanceId : String}
    (h : a'.spawned=a.spawned) : ¬ Replaced a a' instanceId := by
  intro hreplaced
  obtain ⟨replacement,spawned,-,-,happend⟩ := hreplaced
  rw [h] at happend
  simp at happend

theorem terminate_cases (host : Host) (a : ManagedProcessAdapter) (instanceId : String) (process : ManagedProcessInstance)
    (timeout : Duration) (kill : Except IoError Unit) (wait : Waited) :
    ((kill = .ok () ∧ wait = .exited) ∧ a.terminate host instanceId process timeout kill wait =
        ({ a with exited := process.pid::a.exited }, .ok ())) ∨
      (¬ (kill = .ok () ∧ wait = .exited) ∧
        ∃ e, a.terminate host instanceId process timeout kill wait=(a, .error e)) := by
  cases kill with
  | error source => exact .inr ⟨by simp,_,rfl⟩
  | ok =>
    cases wait with
    | exited => exact .inl ⟨⟨rfl,rfl⟩,rfl⟩
    | failed source => exact .inr ⟨by simp,_,rfl⟩
    | timedOut => exact .inr ⟨by simp,_,rfl⟩

/- A restart that cannot end the old process does not spawn a new one. -/
theorem restart_replaces_iff {answers : RestartAnswers} (hspawn : answers.spawn = .ok ())
    (hlaunch : ∀ process, a.instances.lookup handle.instanceId=some process →
      ∃ contract, a.launchContract host process.config = .ok contract) :
    Replaced a (a.restart host handle answers).1 handle.instanceId ↔
      (a.instances.lookup handle.instanceId).isSome ∧ answers.kill = .ok () ∧
        answers.wait = .exited := by
  cases hlookup : a.instances.lookup handle.instanceId with
  | none =>
    have hsame : (a.restart host handle answers).1.spawned=a.spawned := by
      rw [ManagedProcessAdapter.restart,hlookup]
    simpa using not_replaced_of_spawned_eq hsame
  | some process =>
    cases terminate_cases host { a with instances := a.instances.erase handle.instanceId }
        handle.instanceId process (fromSecs 2) answers.kill answers.wait with
    | inl hended =>
      obtain ⟨hanswers,hterminate⟩ := hended
      obtain ⟨⟨configPath,probeAddress⟩,hcontract⟩ := hlaunch process hlookup
      have hrestart : (a.restart host handle answers).1={ a with
          instances := (a.instances.erase handle.instanceId).insert handle.instanceId
            ⟨a.spawned.length,process.config,probeAddress⟩
          spawned := a.spawned++[⟨process.config.instanceId,[a.binary host, "run", "-c",configPath]⟩]
          exited := process.pid::a.exited } := by
        have hcontract' : { a with
            instances := a.instances.erase handle.instanceId
            exited := process.pid::a.exited }.launchContract host process.config =
              .ok (configPath, probeAddress) := hcontract
        simp only [ManagedProcessAdapter.restart,hlookup,hterminate,hcontract',
          ManagedProcessAdapter.spawnProcess,hspawn]
        rfl
      rw [hrestart]
      exact ⟨fun _ => ⟨rfl,hanswers⟩,fun _ => ⟨_,_,AList.lookup_insert _,rfl,rfl⟩⟩
    | inr hfailed =>
      obtain ⟨hanswers,e,hterminate⟩ := hfailed
      have hsame : (a.restart host handle answers).1.spawned=a.spawned := by
        simp only [ManagedProcessAdapter.restart,hlookup,hterminate]
      exact ⟨fun hreplaced => absurd hreplaced (not_replaced_of_spawned_eq hsame),
        fun hall => absurd hall.2 hanswers⟩

/- The probe of a process that is gone: only an error of try_wait keeps the instance. -/
theorem health_gone (handle : CoreHandle) (answers : HealthAnswers)
    (hgone : ∀ process, a.instances.lookup handle.instanceId=some process → process.pid∈a.exited) :
    Watched.statusOf (a.health handle answers).2 = .failed ∧
      (a.health handle answers).1.spawned=a.spawned ∧ (a.health handle answers).1.kind=a.kind ∧
      (a.health handle answers).1.instances.lookup handle.instanceId =
        if answers.tryWaitError.isSome then a.instances.lookup handle.instanceId else none := by
  cases hlookup : a.instances.lookup handle.instanceId with
  | none => simp [ManagedProcessAdapter.health,hlookup,Watched.statusOf]
  | some process =>
    cases herror : answers.tryWaitError with
    | some source => simp [ManagedProcessAdapter.health,hlookup,herror,Watched.statusOf]
    | none =>
      simp [ManagedProcessAdapter.health,hlookup,herror,hgone process hlookup,Watched.statusOf]

theorem superviseStep_check {n : Node} {maxRestarts : UInt32} {window : Duration}
    (hw : n.watched.watcher = .reported handle maxRestarts window)
    (hbudget : n.watched.record.nowWithinWindow maxRestarts window n.watched.now=true) :
    n.superviseStep .check =
      some { n with watched := { n.watched with watcher := .restarting handle } } := by
  rw [Node.superviseStep,next_check_within _ hw hbudget]
  rfl

/- The round of a watcher whose probe fails within the budget, seen from the adapter. -/
theorem react_adapter (host : Host) {n : Node} {maxRestarts : UInt32} {window : Duration}
    {probe : HealthAnswers} (answers : RestartAnswers) (hw : n.watched.watcher = .probing handle maxRestarts window)
    (hbudget : n.watched.record.nowWithinWindow maxRestarts window n.watched.now=true)
    (hfailed : Watched.statusOf (n.adapter.health handle probe).2 = .failed) :
    ∃ w, n.react host probe answers =
      some ⟨w,((n.adapter.health handle probe).1.restart host handle answers).1⟩ := by
  have hhealth : n.healthStep probe=some ⟨{ n.watched with
      watcher := .reported handle maxRestarts window },(n.adapter.health handle probe).1⟩ := by
    simp only [Node.healthStep,hw,Node.superviseStep,Watched.next,hfailed,if_true]
    rfl
  have hcheck := superviseStep_check (n := ⟨{ n.watched with
    watcher := .reported handle maxRestarts window },(n.adapter.health handle probe).1⟩) rfl hbudget
  rw [Node.react,hhealth,Option.bind_some,hcheck,Option.bind_some]
  exact ⟨_,rfl⟩

theorem launchContract_congr {a' : ManagedProcessAdapter} (h : a'.kind=a.kind)
    (config : CoreConfig) : a'.launchContract host config=a.launchContract host config := by
  simp only [ManagedProcessAdapter.launchContract,h]

/-- The watcher's round over a process that is gone, with restart budget left and a launch that
would succeed, spawns a replacement if and only if the adapter still knows the instance, try_wait
fails instead of telling the exit, and the old process can be killed and waited for. -/
theorem crashed_core_replaced_iff (host : Host) (n : Node) (handle : CoreHandle)
    (maxRestarts : UInt32) (window : Duration) (probe : HealthAnswers) (answers : RestartAnswers)
    (hw : n.watched.watcher = .probing handle maxRestarts window)
    (hbudget : n.watched.record.nowWithinWindow maxRestarts window n.watched.now=true)
    (hgone : ∀ process, n.adapter.instances.lookup handle.instanceId=some process →
      process.pid∈n.adapter.exited)
    (hlaunch : ∀ process, n.adapter.instances.lookup handle.instanceId=some process →
      ∃ contract, n.adapter.launchContract host process.config = .ok contract)
    (hspawn : answers.spawn = .ok ()) :
    (∃ n', n.react host probe answers=some n' ∧
        Replaced n.adapter n'.adapter handle.instanceId) ↔
      (n.adapter.instances.lookup handle.instanceId).isSome ∧ probe.tryWaitError.isSome ∧
        answers.kill = .ok () ∧ answers.wait = .exited := by
  obtain ⟨hfailed,hspawned,hkind,hlookup⟩ := health_gone handle probe hgone
  obtain ⟨w,hreact⟩ := react_adapter host answers hw hbudget hfailed
  have hlaunch' : ∀ process,
      (n.adapter.health handle probe).1.instances.lookup handle.instanceId=some process →
        ∃ contract, (n.adapter.health handle probe).1.launchContract host process.config =
          .ok contract := by
    intro process hprocess
    rw [launchContract_congr hkind]
    rw [hlookup] at hprocess
    split_ifs at hprocess
    exact hlaunch process hprocess
  have hreplaces := restart_replaces_iff hspawn hlaunch'
  rw [hreact]
  simp only [Option.some.injEq,exists_eq_left']
  rw [Replaced,← hspawned,← Replaced,hreplaces,hlookup]
  cases probe.tryWaitError with
  | none => simp
  | some source => simp
end

section
variable {host : Host} {n n' : Node}

theorem restart_forgotten {a : ManagedProcessAdapter} {handle : CoreHandle}
    (h : a.instances.lookup handle.instanceId=none) (answers : RestartAnswers) :
    a.restart host handle answers=(a, .error (.instanceNotFound handle.instanceId)) := by
  rw [ManagedProcessAdapter.restart,h]
end

/- A host with an xray binary and a configuration file, as a deployment mounts them. -/
def testHost : Host where
  binaryVar := none
  isBlank := String.isEmpty
  isFile path := if path = "/etc/aether/xray.json" then .ok true else .error ⟨"No such file or directory"⟩
  parseSocketAddr addr :=
    if addr = "127.0.0.1:1080" then .ok ⟨localhostV4,1080⟩ else .error "invalid socket address syntax"
  debugDuration _ := "2s"

def testConfig : CoreConfig where
  instanceId := "svc-1"
  kind := .xray
  protocol := ⟨"vless",.object [("config_path", .string "/etc/aether/xray.json")], "127.0.0.1:1080"⟩
  maxRestarts := 3
  restartWindowSecs := 60

/- The core was started, its process exits, and the watcher wakes up after five seconds. -/
def startedNode : Node where
  watched := .opened ⟨"svc-1",.xray, "vless"⟩ .xray "vless" 3 60 0
  adapter := (ManagedProcessAdapter.xray.start testHost testConfig (.ok ())).1

def crash : List NodeEvent := [.exit 0,.supervise (.tick (fromSecs 5)),.supervise .wake]

def crashedNode : Node where
  watched := { startedNode.watched with
    now := 0+fromSecs 5
    watcher := .probing ⟨"svc-1",.xray, "vless"⟩ 3 (fromSecs 60) }
  adapter := { startedNode.adapter with exited := [0] }

theorem start_testConfig : ManagedProcessAdapter.xray.start testHost testConfig (.ok ()) =
    (startedNode.adapter, .ok ⟨"svc-1",.xray, "vless"⟩) := rfl

theorem run_crash : Run (Node.Step testHost) startedNode crash crashedNode := by
  have hwake := next_wake (fun kind => kind=startedNode.adapter.kind)
    (s := { startedNode.watched with now := 0+fromSecs 5 }) rfl (Nat.le_refl _) rfl
  refine .cons rfl (.cons rfl (.cons ?_ (.refl _)))
  exact congrArg (Option.map fun w => (⟨w,crashedNode.adapter⟩ : Node)) hwake

theorem crashedNode_gone : ∀ process, crashedNode.adapter.instances.lookup "svc-1" = some process →
    process.pid∈crashedNode.adapter.exited := by
  intro process hprocess
  cases hprocess
  decide

/- With an error of try_wait the exit goes unnoticed, and the core comes back. -/
theorem crashed_core_replaced_iff_wait_error :
    ∃ n', crashedNode.react testHost ⟨some ⟨"No child processes"⟩,false⟩ ⟨.ok (),.exited,.ok ()⟩ =
      some n' ∧ Replaced crashedNode.adapter n'.adapter "svc-1" := by
  refine (crashed_core_replaced_iff testHost crashedNode ⟨"svc-1",.xray, "vless"⟩ 3 (fromSecs 60)
    ⟨some ⟨"No child processes"⟩,false⟩ ⟨.ok (),.exited,.ok ()⟩ rfl (by decide +kernel)
    crashedNode_gone ?_ rfl).mpr ⟨rfl,rfl,rfl,rfl⟩
  intro process hprocess
  cases hprocess
  exact ⟨_,rfl⟩

/- The probe is told that the process exited, and kill, wait and spawn would all succeed. -/
theorem crashed_core_stays_down :
    ¬ ∀ host config spawn adapter handle,
      ManagedProcessAdapter.xray.start host config spawn=(adapter, .ok handle) →
      ∀ now events n, Run (Node.Step host) ⟨.opened handle config.kind config.protocol.protocolId
          config.maxRestarts config.restartWindowSecs now,adapter⟩ events n →
      ∀ maxRestarts window probe answers,
        n.watched.watcher = .probing handle maxRestarts window →
        n.watched.record.nowWithinWindow maxRestarts window n.watched.now=true →
        (∀ process, n.adapter.instances.lookup handle.instanceId=some process →
          process.pid∈n.adapter.exited) →
        (∃ contract, n.adapter.launchContract host config = .ok contract) → answers.spawn = .ok () →
        ∃ n', n.react host probe answers=some n' ∧
          Replaced n.adapter n'.adapter handle.instanceId := by
  intro hall
  obtain ⟨n',hreact,hreplaced⟩ := hall testHost testConfig (.ok ()) _ _ start_testConfig 0 crash
    crashedNode run_crash 3 (fromSecs 60) ⟨none,false⟩ ⟨.ok (),.exited,.ok ()⟩ rfl
    (by decide +kernel) crashedNode_gone ⟨_,rfl⟩ rfl
  obtain ⟨hfailed,hspawned,-,hlookup⟩ :=
    health_gone ⟨"svc-1",.xray, "vless"⟩ ⟨none,false⟩ crashedNode_gone
  obtain ⟨w,hreact'⟩ := react_adapter testHost ⟨.ok (),.exited,.ok ()⟩ rfl (by decide +kernel) hfailed
  rw [restart_forgotten hlookup] at hreact'
  rw [hreact'] at hreact
  cases hreact
  exact not_replaced_of_spawned_eq hspawned hreplaced

end AetherX.ManagedProcess
