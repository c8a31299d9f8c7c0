import Mathlib.Data.List.AList
import AetherX.Machine

/-! The consented measurement network. RecordProbe asks for the consent first and takes the lock of
the buckets after that; PublishBuckets does not ask. -/
namespace AetherX.Measurement
open Machine

/- An hour stands for the text that the source prints of it. -/
structure BucketKey where
  isp : String
  protocol : String
  transport : String
  timeWindow : Int
  deriving DecidableEq

structure ProbeResult where
  isp : String
  protocol : String
  transport : String
  domain : String
  success : Bool
  rttMs : Int64
  rstSeen : Bool
  truncated : Bool
  timestamp : Int
  deriving DecidableEq

structure AggregateBucket where
  key : BucketKey
  successCount : Int64
  failureCount : Int64
  rstCount : Int64
  truncCount : Int64
  totalRttMs : Int64
  deviceIds : List String
  deriving DecidableEq

def AggregateBucket.deviceCount (bucket : AggregateBucket) : Nat := bucket.deviceIds.length

structure PublishedBucket where
  key : BucketKey
  successCount : Int64
  failureCount : Int64
  rstCount : Int64
  truncCount : Int64
  medianRttMs : Int64
  contributors : Nat
  deriving DecidableEq

structure ConsentState where
  optedIn : Bool
  revokedAt : Option Int

def ConsentState.setOptIn (optedIn : Bool) (now : Int) (c : ConsentState) : ConsentState :=
  if optedIn then { c with optedIn := true } else ⟨false,some now⟩

inductive MeasurementError where
  | consentRevoked
  deriving DecidableEq

structure Network where
  k : Int
  consent : ConsentState
  buckets : AList fun _ : BucketKey => AggregateBucket
  totalProbes : Int64
  droppedBuckets : Int64
  publishedBuckets : Int64

def hour : Int := 3600000000000

def bucketKey (result : ProbeResult) : BucketKey :=
  ⟨result.isp,result.protocol,result.transport,result.timestamp/hour⟩

def deviceId (result : ProbeResult) : String := result.isp ++ ":" ++ result.transport

/- The noise that was drawn for a count; none where the source adds none. -/
def addLaplaceNoise (noise : Option Int64) (count : Int64) : Int64 :=
  match noise with
  | none => count
  | some noise => if count+noise<0 then 0 else count+noise

inductive Counter where
  | success
  | failure
  | rst
  | trunc

namespace Network
def new (k : Int) : Network := ⟨k,⟨false,none⟩,∅,0,0,0⟩

def bucketFor (n : Network) (key : BucketKey) : AggregateBucket :=
  (n.buckets.lookup key).getD ⟨key,0,0,0,0,0,[]⟩

def tally (result : ProbeResult) (bucket : AggregateBucket) : AggregateBucket :=
  { bucket with
    successCount := if result.success then bucket.successCount+1 else bucket.successCount
    failureCount := if result.success then bucket.failureCount else bucket.failureCount+1
    rstCount := if result.rstSeen then bucket.rstCount+1 else bucket.rstCount
    truncCount := if result.truncated then bucket.truncCount+1 else bucket.truncCount
    totalRttMs := bucket.totalRttMs+result.rttMs
    deviceIds := bucket.deviceIds.insert (deviceId result) }

def addProbe (n : Network) (result : ProbeResult) : Network :=
  { n with
    buckets := n.buckets.insert (bucketKey result) (tally result (n.bucketFor (bucketKey result)))
    totalProbes := n.totalProbes+1 }

def publish (noise : BucketKey → Counter → Option Int64) (bucket : AggregateBucket) : PublishedBucket where
  key := bucket.key
  successCount := addLaplaceNoise (noise bucket.key .success) bucket.successCount
  failureCount := addLaplaceNoise (noise bucket.key .failure) bucket.failureCount
  rstCount := addLaplaceNoise (noise bucket.key .rst) bucket.rstCount
  truncCount := addLaplaceNoise (noise bucket.key .trunc) bucket.truncCount
  medianRttMs := bucket.totalRttMs/max (bucket.successCount+bucket.failureCount) 1
  contributors := bucket.deviceCount

def publishBuckets (n : Network) (noise : BucketKey → Counter → Option Int64) :
    Network × List PublishedBucket :=
  let kept := (n.buckets.entries.map Sigma.snd).filter fun bucket => !decide ((bucket.deviceCount : Int) < n.k)
  let dropped := n.buckets.entries.length-kept.length
  ({ n with
      droppedBuckets := n.droppedBuckets+Int64.ofNat dropped
      publishedBuckets := n.publishedBuckets+Int64.ofNat kept.length }, kept.map (publish noise))

end Network

/- Where a thread is: RecordProbe that has seen the consent has yet to take the lock. -/
inductive Task where
  | idle (last : Option (Except MeasurementError Unit))
  | consented (result : ProbeResult)
  deriving DecidableEq

inductive Event (τ : Type*) where
  | setOptIn (optedIn : Bool) (now : Int)
  | recordProbe (t : τ) (result : ProbeResult)
  | resume (t : τ)
  | publishBuckets (noise : BucketKey → Counter → Option Int64)

/- The network with its callers, and with what has happened while the consent was off: the answers
   of PublishBuckets and the probes that were added. -/
structure Watch (τ : Type*) where
  network : Network
  task : τ → Task
  published : List (List PublishedBucket)
  added : List ProbeResult

variable {τ : Type*}

def Watch.start (k : Int) : Watch τ := ⟨.new k,fun _ => .idle none,[],[]⟩

def Watch.off (w : Watch τ) : Bool := !w.network.consent.optedIn

section
variable [DecidableEq τ]

def Watch.become (w : Watch τ) (t : τ) (task : Task) : Watch τ :=
  { w with task := Function.update w.task t task }

def Watch.handle (w : Watch τ) : Event τ → Watch τ
  | .setOptIn optedIn now =>
    { w with network := { w.network with consent := w.network.consent.setOptIn optedIn now } }
  | .recordProbe t result =>
    match w.task t with
    | .idle _ =>
      if w.network.consent.optedIn then w.become t (.consented result)
      else w.become t (.idle (some (.error .consentRevoked)))
    | .consented _ => w
  | .resume t =>
    match w.task t with
    | .idle _ => w
    | .consented result =>
      { network := w.network.addProbe result
        task := Function.update w.task t (.idle (some (.ok ())))
        published := w.published
        added := if w.off then w.added++[result] else w.added }
  | .publishBuckets noise =>
    let (network, buckets) := w.network.publishBuckets noise
    { w with
      network := network
      published := if w.off then w.published++[buckets] else w.published }
end

/- Nothing has left the device and nothing has been added while the consent was off. -/
structure Halted (w : Watch τ) : Prop where
  published : ∀ buckets∈w.published, buckets=[]
  added : w.added=[]

/- A probe is added only with the consent given, and without it the buckets are asked for only where
   none can be published. -/
def Respects (w : Watch τ) : Event τ → Prop
  | .resume t => ∀ result, w.task t = .consented result → w.off=false
  | .publishBuckets _ => w.off=true → 2 ≤ w.network.k ∨ w.network.buckets.entries=[]
  | _ => True

section
variable {n : Network}

/- A bucket knows one device: its identifier is made of two fields of the bucket's key. -/
def OneDevice (n : Network) : Prop :=
  ∀ key bucket, n.buckets.lookup key=some bucket →
    bucket.deviceIds=[key.isp ++ ":" ++ key.transport]

theorem OneDevice.bucketFor (h : OneDevice n) (result : ProbeResult) :
    (n.bucketFor (bucketKey result)).deviceIds.insert (deviceId result)=[deviceId result] := by
  rw [Network.bucketFor]
  cases hlookup : n.buckets.lookup (bucketKey result) with
  | none => rfl
  | some bucket =>
    have hids : bucket.deviceIds=[deviceId result] := h _ bucket hlookup
    rw [Option.getD_some,hids]
    exact List.insert_of_mem (List.mem_singleton_self _)

theorem OneDevice.addProbe (h : OneDevice n) (result : ProbeResult) : OneDevice (n.addProbe result) := by
  intro key bucket hlookup
  rw [Network.addProbe] at hlookup
  dsimp only at hlookup
  by_cases hkey : key=bucketKey result
  · subst hkey
    rw [AList.lookup_insert] at hlookup
    rw [← Option.some.inj hlookup]
    exact h.bucketFor result
  · rw [AList.lookup_insert_ne hkey] at hlookup
    exact h key bucket hlookup

theorem OneDevice.deviceCount (h : OneDevice n) {bucket : AggregateBucket}
    (hmem : bucket∈n.buckets.entries.map Sigma.snd) : bucket.deviceCount=1 := by
  obtain ⟨⟨key,found⟩,hentry,rfl⟩ := List.mem_map.mp hmem
  rw [AggregateBucket.deviceCount,h key found (AList.mem_lookup_iff.mpr hentry)]
  rfl

/-- No bucket ever has a second device, so that the threshold decides for all of them at once. -/
theorem publishBuckets_eq_nil_iff (h : OneDevice n) (noise : BucketKey → Counter → Option Int64) :
    (n.publishBuckets noise).2=[] ↔ 2 ≤ n.k ∨ n.buckets.entries=[] := by
  rw [Network.publishBuckets,List.map_eq_nil_iff,List.filter_eq_nil_iff]
  constructor
  · intro hnone
    by_cases hempty : n.buckets.entries=[]
    · exact .inr hempty
    · obtain ⟨entry,hentry⟩ := List.exists_mem_of_ne_nil _ hempty
      have hmem : entry.2∈n.buckets.entries.map Sigma.snd := List.mem_map_of_mem hentry
      have hlow := hnone entry.2 hmem
      rw [h.deviceCount hmem,Bool.not_eq_true',decide_eq_false_iff_not,not_not] at hlow
      exact .inl (by omega)
  · rintro (hk | hempty) bucket hmem
    · rw [h.deviceCount hmem,Bool.not_eq_true',decide_eq_false_iff_not,not_not]
      omega
    · rw [hempty] at hmem
      cases hmem
end

section
variable [DecidableEq τ] {w : Watch τ}

theorem OneDevice.handle (h : OneDevice w.network) (e : Event τ) : OneDevice (w.handle e).network := by
  cases e with
  | setOptIn optedIn now => exact h
  | recordProbe t result =>
    rw [Watch.handle]
    cases w.task t with
    | idle last =>
      dsimp only
      split_ifs <;> exact h
    | consented earlier => exact h
  | resume t =>
    rw [Watch.handle]
    cases w.task t with
    | idle last => exact h
    | consented result => exact h.addProbe result
  | publishBuckets noise => exact h

/-- What one step has to respect for the telemetry to stay halted. -/
theorem halted_handle_iff (hone : OneDevice w.network) (h : Halted w) (e : Event τ) :
    Halted (w.handle e) ↔ Respects w e := by
  cases e with
  | setOptIn optedIn now => exact iff_of_true ⟨h.published,h.added⟩ trivial
  | recordProbe t result =>
    refine iff_of_true ?_ trivial
    rw [Watch.handle]
    cases w.task t with
    | idle last =>
      dsimp only
      split_ifs <;> exact ⟨h.published,h.added⟩
    | consented earlier => exact h
  | resume t =>
    rw [Watch.handle,Respects]
    cases htask : w.task t with
    | idle last => exact iff_of_true h (by rintro _ ⟨⟩)
    | consented result =>
      cases hoff : w.off with
      | false => exact iff_of_true ⟨h.published,h.added⟩ fun _ _ => rfl
      | true =>
        refine iff_of_false (fun hnext => ?_) fun hnever => by cases hnever result rfl
        have hnil : w.added++[result]=[] := hnext.added
        simp at hnil
  | publishBuckets noise =>
    rw [Watch.handle,Respects]
    cases hoff : w.off with
    | false => exact iff_of_true ⟨h.published,h.added⟩ fun hon => by cases hon
    | true =>
      rw [← publishBuckets_eq_nil_iff hone noise]
      constructor
      · intro hnext _
        exact hnext.published _ (List.mem_append_right _ (List.mem_singleton_self _))
      · intro hnil
        refine ⟨fun buckets hmem => ?_,h.added⟩
        rcases List.mem_append.mp hmem with hold | hnew
        · exact h.published buckets hold
        · rw [List.mem_singleton.mp hnew]
          exact hnil rfl
end

section
variable [DecidableEq τ]

/-- The telemetry is halted whenever the consent is off, all along a run, exactly when no write
of RecordProbe meets a consent that was revoked behind its check, and the buckets are published
without the consent only under a threshold that no bucket reaches, or before the first probe. -/
theorem halted_along_iff (k : Int) (events : List (Event τ)) :
    (∀ before after, events=before++after → Halted (before.foldl Watch.handle (.start k))) ↔
      ∀ before e after, events=before++e::after →
        Respects (before.foldl Watch.handle (.start k)) e := by
  have hstart : OneDevice (Watch.start k : Watch τ).network := by rintro _ _ ⟨⟩
  have hhalted : Halted (Watch.start k : Watch τ) := ⟨by rintro _ ⟨⟩,rfl⟩
  exact foldl_along_iff (fun w : Watch τ => OneDevice w.network) (fun w e h => h.handle e)
    (fun w e hone h => halted_handle_iff hone h e) events hstart hhalted
end

def canary : ProbeResult :=
  ⟨"MCI", "vless", "ws", "captive.apple.com",true,40,false,false,0⟩

def publishedOff : List (Event Unit) :=
  [.setOptIn true 0,.recordProbe () canary,.resume (),.setOptIn false 1,
    .publishBuckets fun _ _ => none]

def addedOff : List (Event Unit) :=
  [.setOptIn true 0,.recordProbe () canary,.setOptIn false 1,.resume ()]

theorem telemetry_after_revocation :
    (¬ ∀ (k : Int) (events : List (Event Unit)),
      ∀ buckets∈(events.foldl Watch.handle (.start k)).published, buckets=[]) ∧
    ¬ ∀ (k : Int) (events : List (Event Unit)), (events.foldl Watch.handle (.start k)).added=[] := by
  constructor
  · intro h
    have hnone := h 1 publishedOff
    revert hnone
    decide +kernel
  · intro h
    have hnone := h 20 addedOff
    revert hnone
    decide +kernel

section
variable [DecidableEq τ]

theorem k_handle (w : Watch τ) (e : Event τ) : (w.handle e).network.k=w.network.k := by
  cases e with
  | setOptIn | publishBuckets => rfl
  | recordProbe | resume =>
    rw [Watch.handle]
    repeat' split
    all_goals rfl

/-- In every interleaving the threshold publishes all buckets or none: one of two devices or more is
reached by no bucket. -/
theorem published_all_or_none (k : Int) (events : List (Event τ))
    (noise : BucketKey → Counter → Option Int64) :
    let n := (events.foldl Watch.handle (.start k)).network
    (n.publishBuckets noise).2 =
      if 2 ≤ k then [] else (n.buckets.entries.map Sigma.snd).map (Network.publish noise) := by
  have hrun := List.foldlRecOn events Watch.handle
    (motive := fun w : Watch τ => OneDevice w.network ∧ w.network.k=k) (b := .start k)
    ⟨by rintro _ _ ⟨⟩,rfl⟩ fun w h e _ => ⟨h.1.handle e,(k_handle w e).trans h.2⟩
  obtain ⟨hone,hk⟩ := hrun
  intro n
  split_ifs with htwo
  · exact (publishBuckets_eq_nil_iff hone noise).mpr (.inl (hk.symm ▸ htwo))
  · rw [Network.publishBuckets,List.filter_eq_self.mpr]
    intro bucket hmem
    have hcount : bucket.deviceCount=1 := hone.deviceCount hmem
    rw [hcount,hk,Bool.not_eq_true',decide_eq_false_iff_not]
    omega
end

end AetherX.Measurement
