import AetherX.Gf
import AetherX.LinearSystem
import Mathlib.Data.List.AList

/-! The systematic erasure code: k verbatim data shards, m parity shards from a
Cauchy matrix over bytes, and the decoder that solves for the missing shards. -/
namespace AetherX.Fec
open Gf LinearSystem

abbrev Bytes := List UInt8

def maxTotalShards : Nat := 255

structure FecConfig where
  k : Nat
  m : Nat
  shardSize : Nat

def FecConfig.totalShards (config : FecConfig) : Nat := config.k+config.m

def FecConfig.IsSupported (config : FecConfig) : Prop :=
  0 < config.k ∧ 0 < config.m ∧ config.totalShards ≤ maxTotalShards

instance (config : FecConfig) : Decidable config.IsSupported :=
  inferInstanceAs (Decidable (_ ∧ _ ∧ _))

theorem FecConfig.IsSupported.total {config : FecConfig} (h : config.IsSupported) :
    config.k+config.m≤255 := h.2.2

structure Shard where
  index : Nat
  isParity : Bool
  data : Bytes
  deriving DecidableEq

inductive FecError where
  | emptyData
  | invalidConfig
  | notEnoughShards (got need : Nat)
  | notEnoughParity (missing parity : Nat)
  | payloadTooLarge (needed shardSize : Nat)
  | decodeFailed
  deriving DecidableEq

/- Row and column labels are different bytes, so no entry divides by zero. -/
theorem labels_ne {k m : Nat} (h : k+m ≤ maxTotalShards) (p : Fin m) (i : Fin k) :
    Gf.add (UInt8.ofNat p) (UInt8.ofNat (m+i))≠0 := by
  intro he
  have heq : UInt8.ofNat p=UInt8.ofNat (m+i) := UInt8.xor_eq_zero_iff.mp he
  have hnat := congrArg UInt8.toNat heq
  rw [maxTotalShards] at h
  rw [UInt8.toNat_ofNat',UInt8.toNat_ofNat',Nat.mod_eq_of_lt (by omega),
    Nat.mod_eq_of_lt (by omega)] at hnat
  omega

def cauchyParityMatrix (k m : Nat) (h : k+m ≤ maxTotalShards) : Fin m → Fin k → UInt8 :=
  fun p i => Gf.inv (Gf.add (UInt8.ofNat p) (UInt8.ofNat (m+i))) (labels_ne h p i)

def invertMatrix {n : Nat} (a : Fin n → Fin n → UInt8) : Option (Fin n → Fin n → UInt8) :=
  (LinearSystem.invert fun i j => Gf256.mk (a i j)).map fun b i j => (b i j).byte

/- out ^= coef * src byte by byte; what src is too short for stays as it is. -/
def addScaled (coef : UInt8) : Bytes → Bytes → Bytes
  | [], _ => []
  | out, [] => out
  | o::out, s::src => Gf.add o (Gf.mul coef s)::addScaled coef out src

def resize (xs : Bytes) (len : Nat) : Bytes :=
  xs.take len++List.replicate (len-xs.length) 0

def shardLen (config : FecConfig) (data : Bytes) : Nat :=
  max ((data.length+config.k-1)/config.k) 1

def dataShard (data : Bytes) (len i : Nat) : Bytes :=
  let start := i*len
  let stop := min (start+len) data.length
  resize (if start < data.length then (data.take stop).drop start else []) len

/- A parity row: its coefficients times the shards, summed up. -/
def combine {k : Nat} (len : Nat) (coefs : Fin k → UInt8) (srcs : Fin k → Bytes) : Bytes :=
  (List.finRange k).foldl (fun out i => addScaled (coefs i) out (srcs i)) (List.replicate len 0)

def encode (config : FecConfig) (data : Bytes) : Except FecError (List Shard) :=
  if data=[] then .error .emptyData
  else if h : config.IsSupported then
    let len := shardLen config data
    if len > config.shardSize then .error (.payloadTooLarge len config.shardSize)
    else
      let matrix := cauchyParityMatrix config.k config.m h.total
      .ok ((List.finRange config.k).map (fun i : Fin config.k => ⟨i,false,dataShard data len i⟩) ++
        (List.finRange config.m).map fun p : Fin config.m =>
          ⟨config.k+p,true,combine len (matrix p) fun i => dataShard data len i⟩)
  else .error .invalidConfig

/- The deduplicated input. Keys are the indices that passed the range checks, those
   of parity shards counted from k. -/
structure Received (config : FecConfig) where
  data : AList fun _ : Fin config.k => Bytes
  parity : AList fun _ : Fin config.m => Bytes
  shardLen : Nat

variable {config : FecConfig}

def Received.insert (st : Received config) (shard : Shard) :
    Except FecError (Received config) :=
  let shardLen := max st.shardLen shard.data.length
  if shard.isParity then
    if h : shard.index < config.k ∨ config.totalShards ≤ shard.index then .error .decodeFailed
    else
      let p : Fin config.m :=
        ⟨shard.index-config.k,by rw [FecConfig.totalShards] at h; omega⟩
      .ok ⟨st.data,st.parity.insert p shard.data,shardLen⟩
  else if h : config.k ≤ shard.index then .error .decodeFailed
  else .ok ⟨st.data.insert ⟨shard.index,by omega⟩ shard.data,st.parity,shardLen⟩

def Received.missingData (st : Received config) : List (Fin config.k) :=
  (List.finRange config.k).filter (· ∉ st.data)

structure Equation (k : Nat) where
  coefs : Fin k → UInt8
  rhs : Bytes

def unitRow {k : Nat} (i : Fin k) : Fin k → UInt8 := fun j => if j=i then 1 else 0

/- Identity rows for the surviving data shards, then Cauchy rows in index order until
   there are k of them. -/
def Received.equations (st : Received config) (h : config.IsSupported) :
    List (Equation config.k) :=
  let matrix := cauchyParityMatrix config.k config.m h.total
  let known := (List.finRange config.k).filterMap fun i =>
    (st.data.lookup i).map fun d => ⟨unitRow i,d⟩
  let parityIndices := st.parity.keys.insertionSort (· ≤ ·)
  known++(parityIndices.take (config.k-known.length)).filterMap fun p =>
    (st.parity.lookup p).map fun d => ⟨matrix p,d⟩

/- One missing shard from its row of the inverse; a zero coefficient is skipped. -/
def recoverShard {k : Nat} (len : Nat) (coefs : Fin k → UInt8) (srcs : Fin k → Bytes) : Bytes :=
  (List.finRange k).foldl
    (fun out j => if coefs j=0 then out else addScaled (coefs j) out (srcs j))
    (List.replicate len 0)

def Received.recover (st : Received config) (h : config.IsSupported) :
    Except FecError (AList fun _ : Fin config.k => Bytes) :=
  let missing := st.missingData
  if missing=[] then .ok st.data
  else if st.parity.keys.length < missing.length then
    .error (.notEnoughParity missing.length st.parity.keys.length)
  else
    let rows := st.equations h
    if hk : rows.length < config.k then .error (.notEnoughShards rows.length config.k)
    else
      let row := fun j : Fin config.k => rows.get ⟨j,by omega⟩
      match invertMatrix fun j => (row j).coefs with
      | none => .error .decodeFailed
      | some inverse => .ok (missing.foldl (fun data i =>
          data.insert i (recoverShard st.shardLen (inverse i) fun j => (row j).rhs)) st.data)

def collect {k : Nat} (data : AList fun _ : Fin k => Bytes) (i : Fin k) : Except FecError Bytes :=
  match data.lookup i with
  | none => .error .decodeFailed
  | some d => .ok d

def decode (received : List Shard) (config : FecConfig) (originalLen : Nat) :
    Except FecError Bytes :=
  if h : config.IsSupported then do
    let st ← received.foldlM Received.insert (⟨∅,∅,0⟩ : Received config)
    let available := st.data.keys.length+st.parity.keys.length
    if available < config.k then .error (.notEnoughShards available config.k)
    else
      let data ← st.recover h
      if data.keys.length < config.k then .error (.notEnoughShards data.keys.length config.k)
      else
        let pieces ← (List.finRange config.k).mapM (collect data)
        let out := pieces.flatten
        if out.length < originalLen then .error .decodeFailed
        else .ok (out.take originalLen)
  else .error .invalidConfig

end AetherX.Fec
