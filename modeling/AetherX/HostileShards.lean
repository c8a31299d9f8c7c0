import AetherX.FecRecovery

/-! The decoder on shards nobody vouches for, with any indices, flags, lengths and duplicates.
The output vector is reserved at the length the caller names, so there is a panic to be
accounted for, and the pieces are joined without a look at their lengths. -/
namespace AetherX.HostileShards
open Fec FecRecovery List

inductive Panic where
  | capacityOverflow

/- The most bytes a vector may hold, isize::MAX. -/
def maxCapacity : Nat := 2^63-1

def withCapacity (capacity : Nat) : Except Panic Bytes :=
  if maxCapacity < capacity then .error .capacityOverflow else .ok []

def extendFromSlice (out piece : Bytes) : Except Panic Bytes :=
  if maxCapacity < out.length+piece.length then .error .capacityOverflow else .ok (out++piece)

def extendAll {k : Nat} (data : AList fun _ : Fin k => Bytes) :
    List (Fin k) → Bytes → Except Panic (Except FecError Bytes)
  | [], out => .ok (.ok out)
  | i::is, out =>
    match data.lookup i with
    | none => .ok (.error .decodeFailed)
    | some d =>
      match extendFromSlice out d with
      | .error panic => .error panic
      | .ok out => extendAll data is out

def assemble {k : Nat} (data : AList fun _ : Fin k => Bytes) (originalLen : Nat) :
    Except Panic (Except FecError Bytes) :=
  match withCapacity originalLen with
  | .error panic => .error panic
  | .ok out =>
    match extendAll data (finRange k) out with
    | .error panic => .error panic
    | .ok (.error e) => .ok (.error e)
    | .ok (.ok out) =>
      .ok (if out.length < originalLen then .error .decodeFailed else .ok (out.take originalLen))

def decode (received : List Shard) (config : FecConfig) (originalLen : Nat) :
    Except Panic (Except FecError Bytes) :=
  if h : config.IsSupported then
    match received.foldlM Received.insert (⟨∅,∅,0⟩ : Received config) with
    | .error e => .ok (.error e)
    | .ok st =>
      let available := st.data.keys.length+st.parity.keys.length
      if available < config.k then .ok (.error (.notEnoughShards available config.k))
      else
        match st.recover h with
        | .error e => .ok (.error e)
        | .ok data =>
          if data.keys.length < config.k then
            .ok (.error (.notEnoughShards data.keys.length config.k))
          else assemble data originalLen
  else .ok (.error .invalidConfig)

section
variable {r : Except FecError Bytes}
end

section
variable {config : FecConfig}

def InRange (config : FecConfig) (s : Shard) : Prop :=
  if s.isParity then config.k ≤ s.index ∧ s.index < config.totalShards else s.index < config.k

/- What is held of an index: the last shard that arrived with it. -/
def survivor (received : List Shard) (isParity : Bool) (index : Nat) : Option Bytes :=
  (received.reverse.find? fun s => s.isParity=isParity ∧ s.index=index).map Shard.data

def longest (received : List Shard) : Nat := received.foldl (fun n s => max n s.data.length) 0

theorem survivor_snoc (received : List Shard) (s : Shard) (isParity : Bool) (index : Nat) :
    survivor (received++[s]) isParity index =
      if s.isParity=isParity ∧ s.index=index then some s.data
      else survivor received isParity index := by
  rw [survivor,reverse_concat,find?_cons]
  by_cases hs : s.isParity=isParity ∧ s.index=index
  · simp [hs]
  · simp [hs,survivor]

variable {received : List Shard}

theorem mem_of_survivor {isParity : Bool} {index : Nat} {d : Bytes}
    (h : survivor received isParity index=some d) :
    ∃ s∈received, s.isParity=isParity ∧ s.index=index ∧ s.data=d := by
  obtain ⟨s,hs,hd⟩ := Option.map_eq_some_iff.mp h
  have hfound := find?_some hs
  rw [decide_eq_true_eq] at hfound
  exact ⟨s,mem_reverse.mp (mem_of_find?_eq_some hs),hfound.1,hfound.2,hd⟩

theorem survivor_isSome_iff {isParity : Bool} {index : Nat} :
    (survivor received isParity index).isSome ↔
      ∃ s∈received, s.isParity=isParity ∧ s.index=index := by
  rw [survivor,Option.isSome_map,find?_isSome]
  simp

structure Collected (received : List Shard) (st : Received config) : Prop where
  inRange : ∀ s∈received, InRange config s
  lookupData : ∀ i, st.data.lookup i=survivor received false i
  lookupParity : ∀ p, st.parity.lookup p=survivor received true (config.k+p)
  shardLen : st.shardLen=longest received

theorem collected_nil : Collected [] (⟨∅,∅,0⟩ : Received config) :=
  ⟨by simp,fun _ => rfl,fun _ => rfl,rfl⟩

variable {st : Received config}

theorem Collected.insert (hst : Collected received st) {s : Shard} (hs : InRange config s) :
    ∃ st', st.insert s = .ok st' ∧ Collected (received++[s]) st' := by
  have hrange : ∀ t∈received++[s], InRange config t := by
    intro t ht
    cases mem_append.mp ht with
    | inl hold => exact hst.inRange t hold
    | inr hnew => rwa [mem_singleton.mp hnew]
  have hlen : max st.shardLen s.data.length=longest (received++[s]) := by
    rw [longest,foldl_append,hst.shardLen]
    rfl
  cases hparity : s.isParity with
  | true =>
    rw [InRange,if_pos hparity] at hs
    have hcheck : ¬ (s.index < config.k ∨ config.totalShards ≤ s.index) := by omega
    refine ⟨_,by rw [Received.insert,if_pos hparity,dif_neg hcheck],hrange,?_,?_,hlen⟩
    · intro i
      rw [survivor_snoc,hparity,if_neg (by simp),hst.lookupData i]
    · intro p
      have hindex : s.index=config.k+p ↔
          p=⟨s.index-config.k,by rw [FecConfig.totalShards] at hs; omega⟩ := by
        rw [Fin.ext_iff]
        dsimp only
        omega
      rw [lookup_insert_ite,survivor_snoc,hst.lookupParity p,hparity]
      simp only [true_and,hindex]
  | false =>
    rw [InRange,hparity,if_neg (by simp)] at hs
    have hcheck : ¬ config.k ≤ s.index := by omega
    refine ⟨_,by rw [Received.insert,hparity,if_neg (by simp),dif_neg hcheck],hrange,?_,?_,
      hlen⟩
    · intro i
      have hindex : s.index=i ↔ i=⟨s.index,by omega⟩ := by
        rw [Fin.ext_iff]
        exact eq_comm
      rw [lookup_insert_ite,survivor_snoc,hst.lookupData i,hparity]
      simp only [true_and,hindex]
    · intro p
      rw [survivor_snoc,hparity,if_neg (by simp),hst.lookupParity p]

theorem insert_ok (st : Received config) {s : Shard} (hs : InRange config s) :
    ∃ st', st.insert s = .ok st' := by
  rw [InRange] at hs
  rw [Received.insert]
  by_cases hparity : s.isParity
  · rw [if_pos hparity] at hs ⊢
    exact ⟨_,dif_neg (by omega)⟩
  · rw [if_neg hparity] at hs ⊢
    exact ⟨_,dif_neg (by omega)⟩

theorem insert_error (st : Received config) {s : Shard} (hs : ¬ InRange config s) :
    st.insert s = .error .decodeFailed := by
  rw [InRange] at hs
  rw [Received.insert]
  by_cases hparity : s.isParity
  · rw [if_pos hparity] at hs ⊢
    exact dif_pos (by omega)
  · rw [if_neg hparity] at hs ⊢
    exact dif_pos (by omega)

theorem Collected.foldlM_insert {before : List Shard} (hst : Collected before st)
    (hrange : ∀ s∈received, InRange config s) :
    ∃ st', received.foldlM Received.insert st = .ok st' ∧ Collected (before++received) st' := by
  induction received generalizing before st with
  | nil => exact ⟨st,rfl,by rwa [append_nil]⟩
  | cons s received ih =>
    obtain ⟨st₁,hinsert,hst₁⟩ := hst.insert (hrange s mem_cons_self)
    obtain ⟨st₂,hfold,hst₂⟩ := ih hst₁ fun t ht => hrange t (mem_cons_of_mem s ht)
    refine ⟨st₂,?_,?_⟩
    · rw [foldlM_cons,hinsert]
      exact hfold
    · rwa [append_assoc] at hst₂

theorem foldlM_insert_error (hrange : ¬ ∀ s∈received, InRange config s) (st : Received config) :
    received.foldlM Received.insert st = .error .decodeFailed := by
  induction received generalizing st with
  | nil => exact absurd (by simp) hrange
  | cons s received ih =>
    rw [foldlM_cons]
    by_cases hs : InRange config s
    · obtain ⟨st',hinsert⟩ := insert_ok st hs
      rw [hinsert]
      exact ih (fun hrest => hrange (forall_mem_cons.mpr ⟨hs,hrest⟩)) st'
    · rw [insert_error st hs]
      rfl

def seen (received : List Shard) : Finset Nat := (received.map Shard.index).toFinset

theorem mem_seen {x : Nat} : x∈seen received ↔ ∃ s∈received, s.index=x := by
  rw [seen,mem_toFinset,mem_map]

theorem Collected.mem_data (hst : Collected received st) (i : Fin config.k) : i∈st.data ↔ (i : Nat)∈seen received := by
  rw [← AList.lookup_isSome,hst.lookupData i,survivor_isSome_iff,mem_seen]
  constructor
  · intro h
    obtain ⟨s,hs,-,hindex⟩ := h
    exact ⟨s,hs,hindex⟩
  · intro h
    obtain ⟨s,hs,hindex⟩ := h
    refine ⟨s,hs,Bool.eq_false_of_not_eq_true fun hparity => ?_,hindex⟩
    have hrange := hst.inRange s hs
    rw [InRange,if_pos hparity] at hrange
    omega

theorem Collected.mem_parity (hst : Collected received st) (p : Fin config.m) :
    p∈st.parity ↔ config.k+(p : Nat)∈seen received := by
  rw [← AList.lookup_isSome,hst.lookupParity p,survivor_isSome_iff,mem_seen]
  constructor
  · intro h
    obtain ⟨s,hs,-,hindex⟩ := h
    exact ⟨s,hs,hindex⟩
  · intro h
    obtain ⟨s,hs,hindex⟩ := h
    refine ⟨s,hs,not_not.mp fun hdata => ?_,hindex⟩
    have hrange := hst.inRange s hs
    rw [InRange,if_neg hdata] at hrange
    omega

theorem Collected.card_eq (hst : Collected received st) :
    st.data.keys.length+st.parity.keys.length=(seen received).card := by
  refine card_keys hst.mem_data hst.mem_parity fun x hx => ?_
  obtain ⟨s,hs,hindex⟩ := mem_seen.mp hx
  have hrange := hst.inRange s hs
  rw [InRange,FecConfig.totalShards] at hrange
  split_ifs at hrange <;> omega
end

section
variable {k : Nat} {data : AList fun _ : Fin k => Bytes} {f : Fin k → Bytes}

theorem extendAll_eq (hd : ∀ i, data.lookup i=some (f i)) (is : List (Fin k)) {out : Bytes}
    (hout : out.length ≤ maxCapacity) : extendAll data is out =
      if maxCapacity<(out++(is.map f).flatten).length then .error .capacityOverflow
      else .ok (.ok (out++(is.map f).flatten)) := by
  induction is generalizing out with
  | nil =>
    rw [map_nil,flatten_nil,append_nil,if_neg (not_lt.mpr hout)]
    rfl
  | cons i is ih =>
    rw [extendAll,hd i,map_cons,flatten_cons,← append_assoc]
    dsimp only
    by_cases hfull : maxCapacity < out.length+(f i).length
    · have hlong : maxCapacity<(out++f i++(is.map f).flatten).length := by
        rw [length_append,length_append]
        omega
      rw [extendFromSlice,if_pos hfull,if_pos hlong]
    · rw [extendFromSlice,if_neg hfull]
      exact ih (by rw [length_append]; omega)

theorem assemble_eq (hd : ∀ i, data.lookup i=some (f i)) (n : Nat) : assemble data n =
    if maxCapacity < n ∨ maxCapacity<((finRange k).map f).flatten.length then
      .error .capacityOverflow
    else .ok (if ((finRange k).map f).flatten.length < n then .error .decodeFailed
      else .ok (((finRange k).map f).flatten.take n)) := by
  have hall : extendAll data (finRange k) []=_ :=
    extendAll_eq hd (finRange k) (Nat.zero_le maxCapacity)
  rw [nil_append] at hall
  by_cases hcap : maxCapacity < n
  · rw [assemble,withCapacity,if_pos hcap,if_pos (.inl hcap)]
  rw [assemble,withCapacity,if_neg hcap]
  dsimp only
  rw [hall]
  by_cases htotal : maxCapacity<((finRange k).map f).flatten.length
  · rw [if_pos htotal,if_pos (.inr htotal)]
  · rw [if_neg htotal,if_neg (not_or.mpr ⟨hcap,htotal⟩)]

/-- Pieces of one length stand at the multiples of it. -/
theorem drop_take_flatten {L : Nat} (hf : ∀ i, (f i).length=L) (i : Fin k) (n : Nat) :
    ((((finRange k).map f).flatten.take n).drop (i*L)).take L=(f i).take (n-i*L) := by
  have hsum : ((((finRange k).map f).map length).take i).sum=i*L := by
    have hlengths : ((finRange k).map f).map length=replicate k L := by
      rw [eq_replicate_iff]
      simp [hf]
    rw [hlengths,take_replicate,sum_replicate,smul_eq_mul,Nat.min_eq_left i.isLt.le]
  have hlt : (i : Nat)<((finRange k).map f).length := by simp
  rw [drop_take,← hsum,drop_sum_flatten,hsum,drop_eq_getElem_cons hlt,
    flatten_cons,take_take,Nat.min_comm,← take_take]
  congr 1
  simpa using take_left' (hf i)
end

section
variable {config : FecConfig} {received : List Shard}

def Enough (config : FecConfig) (received : List Shard) : Prop :=
  config.IsSupported ∧ (∀ s∈received, InRange config s) ∧ config.k≤(seen received).card

/- A piece of the output is a shard that arrived, or as long as the longest of them. -/
def pieceLength (received : List Shard) (i : Nat) : Nat :=
  ((survivor received false i).map length).getD (longest received)

def totalLength (config : FecConfig) (received : List Shard) : Nat :=
  ((finRange config.k).map fun i : Fin config.k => pieceLength received i).sum

variable {pieces : Fin config.k → Bytes}

theorem length_pieces (hlength : ∀ i : Fin config.k, (pieces i).length=pieceLength received i) :
    ((finRange config.k).map pieces).flatten.length=totalLength config received := by
  rw [length_flatten,map_map,totalLength]
  exact congrArg sum (map_congr_left fun i _ => hlength i)

theorem decode_of_not_enough (h : ¬ Enough config received) (n : Nat) :
    ∃ e, decode received config n = .ok (.error e) := by
  rw [decode]
  by_cases hsupported : config.IsSupported
  · rw [dif_pos hsupported]
    by_cases hrange : ∀ s∈received, InRange config s
    · obtain ⟨st,hfold,hst⟩ := collected_nil.foldlM_insert hrange
      have hcount := hst.card_eq
      rw [nil_append] at hcount
      have hfew : (seen received).card < config.k :=
        not_le.mp fun hk => h ⟨hsupported,hrange,hk⟩
      rw [hfold]
      exact ⟨_,if_pos (by omega)⟩
    · rw [foldlM_insert_error hrange]
      exact ⟨_,rfl⟩
  · rw [dif_neg hsupported]
    exact ⟨_,rfl⟩

theorem length_recoverShard {k : Nat} (len : Nat) (coefs : Fin k → UInt8) (srcs : Fin k → Bytes) :
    (recoverShard len coefs srcs).length=len := by
  rw [recoverShard_eq,length_combine]

/-- With enough shards the solver never fails: what is left to go wrong are the lengths. -/
theorem decode_of_enough (h : Enough config received) (n : Nat) :
    ∃ pieces : Fin config.k → Bytes,
      (∀ (i : Fin config.k) d, survivor received false i=some d → pieces i=d) ∧
      (∀ i, (pieces i).length=pieceLength received i) ∧
      decode received config n =
        if maxCapacity < n ∨ maxCapacity < totalLength config received then
          .error .capacityOverflow
        else .ok (if totalLength config received < n then .error .decodeFailed
          else .ok (((finRange config.k).map pieces).flatten.take n)) := by
  obtain ⟨hsupported,hrange,hk⟩ := h
  obtain ⟨st,hfold,hst⟩ := collected_nil.foldlM_insert hrange
  rw [nil_append] at hst
  rw [← hst.card_eq] at hk
  obtain ⟨inverse,-,final,hrec,hlookup⟩ := recover_spec st hsupported hk
  have hpieces : ∀ i : Fin config.k, ((st.data.lookup i).getD (recoverShard st.shardLen (inverse i)
      fun j => (solverRow st hsupported hk j).rhs)).length=pieceLength received i := by
    intro i
    rw [hst.lookupData i,pieceLength]
    cases survivor received false i with
    | none => rw [Option.getD_none,length_recoverShard,hst.shardLen,Option.map_none,
        Option.getD_none]
    | some d => rw [Option.getD_some,Option.map_some,Option.getD_some]
  refine ⟨_,fun i d hd => ?_,hpieces,?_⟩
  · rw [hst.lookupData i,hd,Option.getD_some]
  · rw [decode,dif_pos hsupported,hfold]
    dsimp only
    rw [if_neg (not_lt.mpr hk),hrec]
    dsimp only
    rw [if_neg (not_lt.mpr (length_keys_of_lookup hlookup).ge),assemble_eq hlookup,
      length_pieces hpieces]

def SameLength (received : List Shard) : Prop :=
  ∀ s∈received, ∀ t∈received, s.data.length=t.data.length

/- Where shards have a common length L, what is held of a data index i stands at i * L, as far
   as the output goes. -/
def Placed (received : List Shard) (n : Nat) (out : Bytes) : Prop :=
  ∀ L, (∀ s∈received, s.data.length=L) → ∀ i d, survivor received false i=some d →
    (out.drop (i*L)).take L=d.take (n-i*L)

theorem longest_eq {L : Nat} (hL : ∀ s∈received, s.data.length=L) (hne : received≠[]) :
    longest received=L := by
  have hfold : ∀ rest : List Shard, (∀ s∈rest, s.data.length=L) →
      rest.foldl (fun n s => max n s.data.length) L=L := by
    intro rest hrest
    induction rest with
    | nil => rfl
    | cons s rest ih =>
      obtain ⟨hs,hrest⟩ := forall_mem_cons.mp hrest
      rw [foldl_cons,hs,max_self,ih hrest]
  cases received with
  | nil => exact absurd rfl hne
  | cons s rest =>
    obtain ⟨hs,hrest⟩ := forall_mem_cons.mp hL
    rw [longest,foldl_cons,hs,Nat.zero_max,hfold rest hrest]

theorem pieceLength_eq {L : Nat} (hL : ∀ s∈received, s.data.length=L) (hne : received≠[])
    (i : Nat) : pieceLength received i=L := by
  rw [pieceLength]
  cases hd : survivor received false i with
  | none => rw [Option.map_none,Option.getD_none,longest_eq hL hne]
  | some d =>
    obtain ⟨s,hs,-,-,hdata⟩ := mem_of_survivor hd
    rw [Option.map_some,Option.getD_some,← hdata,hL s hs]

theorem Enough.ne_nil (h : Enough config received) : received≠[] := by
  intro hnil
  have hk := h.2.2
  rw [hnil] at hk
  exact absurd h.1.1 (Nat.not_lt.mpr hk)

theorem Enough.placed (h : Enough config received)
    (hpieces : ∀ (i : Fin config.k) d, survivor received false i=some d → pieces i=d)
    (hlength : ∀ i : Fin config.k, (pieces i).length=pieceLength received i) (n : Nat) :
    Placed received n (((finRange config.k).map pieces).flatten.take n) := by
  intro L hL i d hd
  obtain ⟨s,hs,hdata,hindex,-⟩ := mem_of_survivor hd
  have hi : i < config.k := by
    have hrange := h.2.1 s hs
    rwa [InRange,hdata,if_neg (by simp),hindex] at hrange
  rw [drop_take_flatten (L := L) (fun j => by rw [hlength j,pieceLength_eq hL h.ne_nil])
    ⟨i,hi⟩ n,hpieces ⟨i,hi⟩ d hd]
end

/-- What the decoder returns has the length that was asked for, and every surviving data shard
is in its place. It does not panic and refuses shards of unequal length exactly when enough
shards only come with lengths that a vector can have, and are of one length or too short
together. -/
theorem hostile_decode_iff (received : List Shard) (config : FecConfig) (n : Nat) :
    (∀ out, decode received config n = .ok (.ok out) → out.length=n ∧ Placed received n out) ∧
    ((∃ r, decode received config n = .ok r) ∧
      (¬ SameLength received → ∃ e, decode received config n = .ok (.error e)) ↔
      (Enough config received → n ≤ maxCapacity ∧ totalLength config received ≤ maxCapacity ∧
        (SameLength received ∨ totalLength config received < n))) := by
  by_cases henough : Enough config received
  · obtain ⟨pieces,hpieces,hlength,hdecode⟩ := decode_of_enough henough n
    rw [hdecode]
    by_cases hover : maxCapacity < n ∨ maxCapacity < totalLength config received
    · rw [if_pos hover]
      refine ⟨(fun out hout => by cases hout),iff_of_false ?_ ?_⟩
      · intro h
        obtain ⟨r,hr⟩ := h.1
        cases hr
      · intro h
        have hbounds := h henough
        omega
    rw [if_neg hover]
    by_cases hshort : totalLength config received < n
    · rw [if_pos hshort]
      refine ⟨(fun out hout => by cases hout),iff_of_true ⟨⟨_,rfl⟩,fun _ => ⟨_,rfl⟩⟩ fun _ => ?_⟩
      exact ⟨by omega,by omega,.inr hshort⟩
    rw [if_neg hshort]
    constructor
    · intro out hout
      rw [← Except.ok.inj (Except.ok.inj hout)]
      refine ⟨?_,henough.placed hpieces hlength n⟩
      rw [length_take,length_pieces hlength]
      omega
    · constructor
      · intro h _
        refine ⟨by omega,by omega,.inl (not_not.mp fun hdiffer => ?_)⟩
        obtain ⟨e,he⟩ := h.2 hdiffer
        cases he
      · intro h
        have hsame := (h henough).2.2.resolve_right hshort
        exact ⟨⟨_,rfl⟩,fun hdiffer => absurd hsame hdiffer⟩
  · obtain ⟨e,he⟩ := decode_of_not_enough henough n
    rw [he]
    exact ⟨(fun out hout => by cases hout),
      iff_of_true ⟨⟨_,rfl⟩,fun _ => ⟨e,rfl⟩⟩ fun h => absurd h henough⟩

/- Two data shards of one byte and 2^63 bytes wanted; and a shard of one byte before one of two,
   which are joined as they are. -/
theorem hostile_decode_fails :
    (¬ ∀ (received : List Shard) (config : FecConfig) (n : Nat), config.IsSupported →
      ∃ r, decode received config n = .ok r) ∧
    ¬ ∀ (received : List Shard) (config : FecConfig) (n : Nat), config.IsSupported →
      ¬ SameLength received → ∃ e, decode received config n = .ok (.error e) := by
  constructor
  · intro h
    obtain ⟨r,hr⟩ := h [⟨0,false,[1]⟩,⟨1,false,[2]⟩] ⟨2,1,4⟩ (2^63) (by decide)
    have hpanic : decode [⟨0,false,[1]⟩,⟨1,false,[2]⟩] ⟨2,1,4⟩ (2^63) =
        .error .capacityOverflow := rfl
    rw [hpanic] at hr
    cases hr
  · intro h
    have hdiffer : ¬ SameLength [⟨0,false,[1]⟩,⟨1,false,[2,3]⟩] := by
      intro hsame
      exact absurd (hsame ⟨0,false,[1]⟩ (by simp) ⟨1,false,[2,3]⟩ (by simp)) (by decide)
    obtain ⟨e,he⟩ := h [⟨0,false,[1]⟩,⟨1,false,[2,3]⟩] ⟨2,1,4⟩ 3 (by decide) hdiffer
    have haccepted : decode [⟨0,false,[1]⟩,⟨1,false,[2,3]⟩] ⟨2,1,4⟩ 3 =
        .ok (.ok [1,2,3]) := rfl
    rw [haccepted] at he
    cases he

end AetherX.HostileShards
