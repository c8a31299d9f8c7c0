import AetherX.Fec

/-! Any k different shards of an encoded payload give the payload back. Everything
linear is read off one byte position at a time, as a vector over the byte field. -/
namespace AetherX.FecRecovery
open Gf LinearSystem Fec Matrix List

def column (xs : Bytes) (pos : Nat) : Gf256 := ⟨xs.getD pos 0⟩

theorem eq_of_columns {xs ys : Bytes} (hlen : xs.length=ys.length)
    (h : ∀ pos < xs.length, column xs pos=column ys pos) : xs=ys := by
  apply ext_getElem hlen
  intro pos hx hy
  have hcol := congrArg Gf256.byte (h pos hx)
  simpa [column,hx,hy] using hcol

theorem length_addScaled (coef : UInt8) (out src : Bytes) :
    (addScaled coef out src).length = out.length := by
  induction out generalizing src with
  | nil => rfl
  | cons o out ih =>
    cases src with
    | nil => rfl
    | cons s src => simp [addScaled,ih]

theorem column_addScaled (coef : UInt8) (out src : Bytes) {pos : Nat} (h : pos < out.length) :
    column (addScaled coef out src) pos=column out pos+⟨coef⟩*column src pos := by
  induction out generalizing src pos with
  | nil => simp at h
  | cons o out ih =>
    cases src with
    | nil =>
      have hzero : column [] pos=0 := rfl
      rw [hzero,mul_zero,add_zero]
      rfl
    | cons s src =>
      cases pos with
      | zero => rfl
      | succ pos => exact ih src (by simpa using h)

theorem addScaled_zero (out src : Bytes) : addScaled 0 out src = out := by
  apply eq_of_columns (length_addScaled _ _ _)
  intro pos h
  rw [column_addScaled 0 out src (by rwa [length_addScaled] at h)]
  exact (congrArg _ (zero_mul (column src pos))).trans (add_zero _)

theorem recoverShard_eq {k : Nat} (len : Nat) (coefs : Fin k → UInt8) (srcs : Fin k → Bytes) :
    recoverShard len coefs srcs=combine len coefs srcs := by
  have hstep : (fun out j => if coefs j=0 then out else addScaled (coefs j) out (srcs j)) =
      fun out j => addScaled (coefs j) out (srcs j) := by
    funext out j
    split_ifs with hz
    · rw [hz,addScaled_zero]
    · rfl
  rw [recoverShard,hstep,combine]

section
variable {k : Nat} (coefs : Fin k → UInt8) (srcs : Fin k → Bytes)

theorem length_foldl_addScaled (is : List (Fin k)) (out : Bytes) :
    (is.foldl (fun out i => addScaled (coefs i) out (srcs i)) out).length = out.length := by
  induction is generalizing out with
  | nil => rfl
  | cons i is ih => rw [foldl_cons,ih,length_addScaled]

theorem column_foldl_addScaled (is : List (Fin k)) (out : Bytes) {pos : Nat}
    (h : pos < out.length) :
    column (is.foldl (fun out i => addScaled (coefs i) out (srcs i)) out) pos =
      column out pos+(is.map fun i => (⟨coefs i⟩ : Gf256)*column (srcs i) pos).sum := by
  induction is generalizing out with
  | nil => simp
  | cons i is ih =>
    rw [foldl_cons,ih _ (by rwa [length_addScaled]),column_addScaled _ _ _ h,
      map_cons,sum_cons,add_assoc]

theorem length_combine (len : Nat) : (combine len coefs srcs).length=len := by
  rw [combine,length_foldl_addScaled,length_replicate]

theorem column_combine {len pos : Nat} (h : pos < len) :
    column (combine len coefs srcs) pos =
      ∑ i, (⟨coefs i⟩ : Gf256)*column (srcs i) pos := by
  have hzero : column (replicate len 0) pos=0 := by
    simp [column,getD_eq_getElem?_getD,h]
    rfl
  rw [combine,column_foldl_addScaled _ _ _ _ (by rwa [length_replicate]),hzero,zero_add,
    Fin.sum_univ_def]
end

theorem length_dataShard (data : Bytes) (len i : Nat) : (dataShard data len i).length=len := by
  simp only [dataShard,resize,length_append,length_take,length_replicate]
  omega

theorem resize_append (data : Bytes) (len start : Nat) :
    resize data start++resize
        (if start < data.length then (data.take (min (start+len) data.length)).drop start else [])
        len=resize data (start+len) := by
  by_cases h : start < data.length
  · have hpiece : (data.take (min (start+len) data.length)).drop start =
        (data.drop start).take len := by
      rw [drop_take,take_eq_take_iff,length_drop]
      omega
    rw [if_pos h,hpiece]
    simp only [resize,take_take,Nat.min_self,take_add,length_take,
      length_drop,Nat.sub_eq_zero_of_le h.le,replicate_zero,append_nil,
      append_assoc]
    congr 3
    omega
  · have hlen : data.length ≤ start := not_lt.mp h
    have hzeros : start+len-data.length=(start-data.length)+len := by omega
    rw [if_neg h]
    simp [resize,take_of_length_le hlen,take_of_length_le (le_add_right hlen),hzeros]

/- Shard after shard the payload comes back, padded with zeros at the end. -/
theorem dataShards_flatten (data : Bytes) (len n : Nat) :
    ((List.range n).map (dataShard data len)).flatten=resize data (n*len) := by
  induction n with
  | zero => simp [resize]
  | succ n ih =>
    rw [range_succ,map_append,flatten_append,ih,Nat.add_mul,Nat.one_mul,
      ← resize_append]
    simp [dataShard]

theorem le_shards (config : FecConfig) (hk : 0 < config.k) (data : Bytes) :
    data.length ≤ config.k*shardLen config data := by
  have hdiv := Nat.lt_mul_div_succ (data.length+config.k-1) hk
  have hle : (data.length+config.k-1)/config.k ≤ shardLen config data := le_max_left _ _
  have hmul := Nat.mul_le_mul_left config.k hle
  rw [Nat.mul_add,Nat.mul_one] at hdiv
  omega

def source (config : FecConfig) (data : Bytes) (i : Fin config.k) : Bytes :=
  dataShard data (shardLen config data) i

theorem take_sources (config : FecConfig) (hk : 0 < config.k) (data : Bytes) :
    data.length≤((finRange config.k).map (source config data)).flatten.length ∧
    ((finRange config.k).map (source config data)).flatten.take data.length=data := by
  have hmap : (finRange config.k).map (source config data) =
      (List.range config.k).map (dataShard data (shardLen config data)) := by
    rw [← List.map_coe_finRange_eq_range,List.map_map]
    rfl
  have hle := le_shards config hk data
  rw [hmap,dataShards_flatten,resize,take_of_length_le hle]
  simp

section
variable {config : FecConfig} (h : config.IsSupported) (data : Bytes)

def rowLabel (p : Fin config.m) : Gf256 := ⟨UInt8.ofNat p⟩
def colLabel (i : Fin config.k) : Gf256 := ⟨UInt8.ofNat (config.m+i)⟩

theorem ofNat_inj {a b : Nat} (ha : a<256) (hb : b<256)
    (he : (⟨UInt8.ofNat a⟩ : Gf256)=⟨UInt8.ofNat b⟩) : a=b := by
  have hnat := congrArg (fun x => x.byte.toNat) he
  simpa [UInt8.toNat_ofNat',Nat.mod_eq_of_lt ha,Nat.mod_eq_of_lt hb] using hnat

theorem cauchy_entry (p : Fin config.m) (i : Fin config.k) :
    (⟨cauchyParityMatrix config.k config.m h.total p i⟩ : Gf256)=(rowLabel p-colLabel i)⁻¹ := by
  rw [rowLabel,colLabel,sub_mk,inv_mk (labels_ne h.total p i)]
  rfl

def parity (p : Fin config.m) : Bytes :=
  combine (shardLen config data) (cauchyParityMatrix config.k config.m h.total p) (source config data)

/-- An equation the encoded payload satisfies, at every byte position. -/
def Sound (e : Equation config.k) : Prop :=
  ∀ pos < shardLen config data,
    column e.rhs pos = ∑ i, (⟨e.coefs i⟩ : Gf256)*column (source config data i) pos

def unitEquation (i : Fin config.k) : Equation config.k := ⟨unitRow i,source config data i⟩

def parityEquation (p : Fin config.m) : Equation config.k :=
  ⟨cauchyParityMatrix config.k config.m h.total p,parity h data p⟩

theorem unitRow_sum {k : Nat} (i : Fin k) (v : Fin k → Gf256) :
    ∑ j, (⟨unitRow i j⟩ : Gf256)*v j=v i := by
  have hrow : ∀ j, (⟨unitRow i j⟩ : Gf256)*v j=if j=i then v j else 0 := by
    intro j
    by_cases hj : j=i
    · simp only [unitRow,if_pos hj]
      exact one_mul _
    · simp only [unitRow,if_neg hj]
      exact zero_mul _
  simp [hrow]

theorem sound_unitEquation (i : Fin config.k) : Sound data (unitEquation data i) :=
  fun pos _ => (unitRow_sum i fun j => column (source config data j) pos).symm

theorem sound_parityEquation (p : Fin config.m) : Sound data (parityEquation h data p) :=
  fun _ hpos => column_combine _ _ hpos

def system (known : List (Fin config.k)) (chosen : List (Fin config.m)) :
    List (Equation config.k) :=
  known.map (unitEquation data)++chosen.map (parityEquation h data)

variable {chosen : List (Fin config.m)} {known : List (Fin config.k)}

theorem sound_system {e : Equation config.k} (he : e∈system h data known chosen) : Sound data e := by
  simp only [system,mem_append,mem_map] at he
  cases he with
  | inl hu =>
    obtain ⟨i,-,rfl⟩ := hu
    exact sound_unitEquation data i
  | inr hp =>
    obtain ⟨p,-,rfl⟩ := hp
    exact sound_parityEquation h data p

/- Known shards fix their unknowns, and the Cauchy rows the remaining ones. -/
theorem unit_cauchy_kernel (hknown : known.Nodup) (hchosen : chosen.Nodup)
    (hcard : config.k ≤ known.length+chosen.length) {v : Fin config.k → Gf256}
    (hfixed : ∀ i∈known, v i=0)
    (hrow : ∀ p∈chosen, ∑ i, (⟨cauchyParityMatrix config.k config.m h.total p i⟩ : Gf256)*v i=0) : v=0 := by
  have hbound := h.total
  have hmissing : (Finset.univ.filter (· ∉ known)).card ≤ chosen.length := by
    have hcompl : Finset.univ.filter (· ∉ known)=known.toFinsetᶜ := by
      apply Finset.ext
      simp
    rw [hcompl,Finset.card_compl,Fintype.card_fin,toFinset_card_of_nodup hknown]
    omega
  have hparity : ∀ p∈chosen.toFinset,
      ∑ i∈Finset.univ.filter (· ∉ known), (rowLabel p-colLabel i)⁻¹*v i=0 := by
    intro p hp
    rw [← hrow p (mem_toFinset.mp hp),Finset.sum_filter]
    apply Finset.sum_congr rfl
    intro i _
    by_cases hi : i∈known
    · simp [hi,hfixed i hi]
    · simp [hi,cauchy_entry h p i]
  have hrows : Set.InjOn (rowLabel : Fin config.m → Gf256) chosen.toFinset := by
    intro p _ q _ he
    exact Fin.ext (ofNat_inj (by omega) (by omega) he)
  have hcols : Set.InjOn (colLabel : Fin config.k → Gf256) (Finset.univ.filter (· ∉ known)) := by
    intro i _ j _ he
    have := ofNat_inj (by omega) (by omega) he
    exact Fin.ext (by omega)
  have hdisjoint : ∀ p∈chosen.toFinset, ∀ i∈Finset.univ.filter (· ∉ known),
      (rowLabel p : Gf256)≠colLabel i := by
    intro p _ i _ he
    have := ofNat_inj (by omega) (by omega) he
    omega
  have hzero := cauchy_kernel hrows hcols hdisjoint
    (by rwa [toFinset_card_of_nodup hchosen]) hparity
  funext i
  by_cases hi : i∈known
  · exact hfixed i hi
  · exact hzero i (by simpa using hi)

/- The inverse takes the right-hand sides of the rows back to the unknowns. -/
def Undoes {k : Nat} (rows : Fin k → Equation k) (inverse : Fin k → Fin k → UInt8) : Prop :=
  ∀ (v : Fin k → Gf256) (i : Fin k),
    ∑ j, (⟨inverse i j⟩ : Gf256) * ∑ i', (⟨(rows j).coefs i'⟩ : Gf256)*v i'=v i

theorem invertMatrix_spec {k : Nat} (rows : Fin k → Equation k)
    (hkernel : ∀ v : Fin k → Gf256,
      (∀ j, ∑ i, (⟨(rows j).coefs i⟩ : Gf256)*v i=0) → v=0) :
    ∃ inverse, invertMatrix (fun j => (rows j).coefs)=some inverse ∧ Undoes rows inverse := by
  obtain ⟨b,hb,hinv⟩ := invert_spec (fun j i => (⟨(rows j).coefs i⟩ : Gf256))
    (fun v hv => hkernel v fun j => congrFun hv j)
  exact ⟨fun i j => (b i j).byte,by rw [invertMatrix,hb]; rfl,fun v i => congrFun (hinv v) i⟩

/-- Solving k equations of the payload gives every data shard. -/
theorem recoverShard_eq_source {rows : Fin config.k → Equation config.k}
    (hsound : ∀ j, Sound data (rows j)) {inverse : Fin config.k → Fin config.k → UInt8}
    (hinv : Undoes rows inverse) (i : Fin config.k) :
    recoverShard (shardLen config data) (inverse i) (fun j => (rows j).rhs) =
      source config data i := by
  have hlen : (source config data i).length=shardLen config data := length_dataShard _ _ _
  rw [recoverShard_eq]
  apply eq_of_columns
  · rw [length_combine,hlen]
  · intro pos hpos
    rw [length_combine] at hpos
    rw [column_combine _ _ hpos,← hinv (fun i => column (source config data i) pos) i]
    apply Finset.sum_congr rfl
    intro j _
    rw [hsound j pos hpos]
end

theorem lookup_insert_ite {α : Type*} [DecidableEq α] (s : AList fun _ : α => Bytes) (a b : α)
    (d : Bytes) : (s.insert a d).lookup b=if b=a then some d else s.lookup b := by
  by_cases hb : b=a
  · rw [hb,AList.lookup_insert,if_pos rfl]
  · rw [AList.lookup_insert_ne hb,if_neg hb]

/-! What the solver does with any shards, whether they come from one payload or not. -/
section
variable {config : FecConfig} (st : Received config) (h : config.IsSupported)

def knownData : List (Fin config.k) := (finRange config.k).filter (· ∈ st.data)

def usedParity : List (Fin config.m) :=
  (st.parity.keys.insertionSort (· ≤ ·)).take (config.k-st.data.keys.length)

theorem length_knownData : (knownData st).length=st.data.keys.length := by
  apply List.Perm.length_eq
  rw [knownData,perm_ext_iff_of_nodup ((nodup_finRange _).filter _) st.data.keys_nodup]
  intro i
  rw [← AList.mem_keys]
  simp

theorem length_missingData : st.data.keys.length+st.missingData.length=config.k := by
  have hsum := length_eq_length_filter_add (l := finRange config.k) (· ∈ st.data)
  have hmissing : st.missingData=(finRange config.k).filter fun i =>
      !decide (i∈st.data) := by
    apply filter_congr
    intro i _
    simp
  rw [length_finRange] at hsum
  rw [hmissing,← length_knownData]
  exact hsum.symm

/- Every index that arrived is a key of exactly one of the two maps. -/
theorem card_keys {st : Received config} {seen : Finset Nat}
    (hdata : ∀ i, i∈st.data ↔ (i : Nat)∈seen)
    (hparity : ∀ p, p∈st.parity ↔ config.k+(p : Nat)∈seen)
    (hbound : ∀ x∈seen, x < config.k+config.m) :
    st.data.keys.length+st.parity.keys.length=seen.card := by
  have hsplit : seen=st.data.keys.toFinset.image (fun i : Fin config.k => (i : Nat)) ∪
      st.parity.keys.toFinset.image (fun p : Fin config.m => config.k+(p : Nat)) := by
    apply Finset.ext
    intro x
    simp only [Finset.mem_union,Finset.mem_image,mem_toFinset,← AList.mem_keys,
      hdata,hparity]
    constructor
    · intro hx
      have hlt := hbound x hx
      by_cases hk : x < config.k
      · exact .inl ⟨⟨x,hk⟩,hx,rfl⟩
      · have hsum : config.k+(x-config.k)=x := by omega
        exact .inr ⟨⟨x-config.k,by omega⟩,by rwa [hsum],hsum⟩
    · intro hx
      cases hx with
      | inl hi =>
        obtain ⟨i,hi,rfl⟩ := hi
        exact hi
      | inr hp =>
        obtain ⟨p,hp,rfl⟩ := hp
        exact hp
  have hdisjoint : Disjoint (st.data.keys.toFinset.image (fun i : Fin config.k => (i : Nat)))
      (st.parity.keys.toFinset.image (fun p : Fin config.m => config.k+(p : Nat))) := by
    rw [Finset.disjoint_left]
    intro x hx hy
    obtain ⟨i,-,rfl⟩ := Finset.mem_image.mp hx
    obtain ⟨p,-,he⟩ := Finset.mem_image.mp hy
    omega
  rw [hsplit,Finset.card_union_of_disjoint hdisjoint,
    Finset.card_image_of_injective _ Fin.val_injective,
    Finset.card_image_of_injective _ fun p q he => Fin.ext (Nat.add_left_cancel he),
    toFinset_card_of_nodup st.data.keys_nodup,
    toFinset_card_of_nodup st.parity.keys_nodup]

theorem usedParity_nodup : (usedParity st).Nodup :=
  ((perm_insertionSort _ _).nodup_iff.mpr st.parity.keys_nodup).sublist
    (take_sublist _ _)

theorem filterMap_lookup {α β : Type*} [DecidableEq α] (s : AList fun _ : α => Bytes)
    (f : α → Bytes → β) (xs : List α) : xs.filterMap (fun a => (s.lookup a).map (f a)) =
      (xs.filter (· ∈ s)).map fun a => f a ((s.lookup a).getD []) := by
  induction xs with
  | nil => rfl
  | cons a xs ih =>
    cases ha : s.lookup a with
    | none =>
      have hmem : a∉s := AList.lookup_eq_none.mp ha
      simp [ha,hmem,ih]
    | some d =>
      have hmem : a∈s := AList.lookup_isSome.mp (by rw [ha]; rfl)
      simp [ha,hmem,ih]

theorem equations_eq : st.equations h =
    (knownData st).map (fun i => ⟨unitRow i,(st.data.lookup i).getD []⟩) ++
      (usedParity st).map fun p =>
        ⟨cauchyParityMatrix config.k config.m h.total p,(st.parity.lookup p).getD []⟩ := by
  have hused : ∀ p∈usedParity st, decide (p∈st.parity)=true := by
    intro p hp
    rw [decide_eq_true_eq,AList.mem_keys]
    exact (mem_insertionSort _).mp (mem_of_mem_take hp)
  have hknown := filterMap_lookup st.data (fun i d => (⟨unitRow i,d⟩ : Equation config.k))
    (finRange config.k)
  rw [Received.equations,hknown,filterMap_lookup,length_map,← knownData,length_knownData,
    ← usedParity,filter_eq_self.mpr hused]

section
variable (hcard : config.k ≤ st.data.keys.length+st.parity.keys.length)

include hcard

theorem length_usedParity : (usedParity st).length=config.k-st.data.keys.length := by
  rw [usedParity,length_take,length_insertionSort]
  omega

theorem length_equations : (st.equations h).length=config.k := by
  have hmissing := length_missingData st
  rw [equations_eq,length_append,length_map,length_map,length_knownData,
    length_usedParity st hcard]
  omega

theorem equations_kernel {v : Fin config.k → Gf256}
    (hv : ∀ e∈st.equations h, ∑ i, (⟨e.coefs i⟩ : Gf256)*v i=0) : v=0 := by
  rw [equations_eq] at hv
  have hfixed : ∀ i∈knownData st, v i=0 := by
    intro i hi
    have hrow := hv _ (mem_append_left _ (mem_map_of_mem hi))
    rwa [unitRow_sum] at hrow
  refine unit_cauchy_kernel h ((nodup_finRange _).filter _) (usedParity_nodup st) ?_ hfixed
    fun p hp => hv _ (mem_append_right _ (mem_map_of_mem hp))
  have hlen := length_knownData st
  rw [knownData] at hlen
  rw [hlen,length_usedParity st hcard]
  omega

omit hcard in
def solverRow (hcard : config.k ≤ st.data.keys.length+st.parity.keys.length)
    (j : Fin config.k) : Equation config.k :=
  (st.equations h).get (j.cast (length_equations st h hcard).symm)

omit hcard in
theorem lookup_foldl_insert {k : Nat} (f : Fin k → Bytes) (is : List (Fin k))
    (d : AList fun _ : Fin k => Bytes) (i : Fin k) :
    (is.foldl (fun d j => d.insert j (f j)) d).lookup i =
      if i∈is then some (f i) else d.lookup i := by
  induction is generalizing d with
  | nil => simp
  | cons j is ih =>
    rw [foldl_cons,ih,lookup_insert_ite]
    by_cases hi : i∈is
    · simp [hi]
    · by_cases hj : i=j
      · simp [hj]
      · simp [hi,hj]

/-- With k different indices at hand every data shard is there afterwards: those that arrived
as they are, the others solved for. -/
theorem recover_spec : ∃ inverse, Undoes (solverRow st h hcard) inverse ∧
    ∃ final, st.recover h = .ok final ∧ ∀ i, final.lookup i=some ((st.data.lookup i).getD
      (recoverShard st.shardLen (inverse i) fun j => (solverRow st h hcard j).rhs)) := by
  have hlen := length_equations st h hcard
  have hmissing := length_missingData st
  have hkernel : ∀ v : Fin config.k → Gf256,
      (∀ j, ∑ i, (⟨(solverRow st h hcard j).coefs i⟩ : Gf256)*v i=0) → v=0 := by
    intro v hv
    apply equations_kernel st h hcard
    intro e he
    obtain ⟨j,rfl⟩ := mem_iff_get.mp he
    exact hv (j.cast hlen)
  obtain ⟨inverse,hinvert,hundoes⟩ := invertMatrix_spec _ hkernel
  refine ⟨inverse,hundoes,?_⟩
  have hmem : ∀ i, i∈st.missingData ↔ st.data.lookup i=none := by
    intro i
    rw [AList.lookup_eq_none,Received.missingData]
    simp
  by_cases hnone : st.missingData=[]
  · refine ⟨st.data,by rw [Received.recover,if_pos hnone],fun i => ?_⟩
    obtain ⟨d,hd⟩ := Option.ne_none_iff_exists'.mp
      fun hi => ne_nil_of_mem ((hmem i).mpr hi) hnone
    rw [hd,Option.getD_some]
  · have hparity : ¬ st.parity.keys.length < st.missingData.length := by omega
    refine ⟨_,?_,fun i => lookup_foldl_insert (fun i => recoverShard st.shardLen (inverse i)
      fun j => (solverRow st h hcard j).rhs) st.missingData st.data i |>.trans ?_⟩
    · have hrows : ¬ (st.equations h).length < config.k := by omega
      have hmatrix : invertMatrix (fun j : Fin config.k =>
          ((st.equations h).get ⟨j,by omega⟩).coefs)=some inverse := hinvert
      simp only [Received.recover,if_neg hnone,if_neg hparity,dif_neg hrows,hmatrix]
      rfl
    · cases hd : st.data.lookup i with
      | none => rw [if_pos ((hmem i).mpr hd),Option.getD_none]
      | some d => rw [if_neg (fun hi => by rw [(hmem i).mp hi] at hd; cases hd),Option.getD_some]
end

theorem collect_all {k : Nat} {d : AList fun _ : Fin k => Bytes} {f : Fin k → Bytes}
    (hd : ∀ i, d.lookup i=some (f i)) (is : List (Fin k)) :
    is.mapM (collect d) = .ok (is.map f) := by
  induction is with
  | nil => rfl
  | cons i is ih =>
    rw [mapM_cons,ih,collect,hd i]
    rfl

theorem length_keys_of_lookup {k : Nat} {d : AList fun _ : Fin k => Bytes} {f : Fin k → Bytes}
    (hd : ∀ i, d.lookup i=some (f i)) : d.keys.length=k := by
  have hall : d.keys.toFinset=Finset.univ := by
    apply Finset.eq_univ_of_forall
    intro i
    rw [mem_toFinset,← AList.mem_keys,← AList.lookup_isSome,hd i]
    rfl
  rw [← toFinset_card_of_nodup d.keys_nodup,hall,Finset.card_univ,Fintype.card_fin]
end

section
variable {config : FecConfig} (h : config.IsSupported) (data : Bytes)

def sourceShard (i : Fin config.k) : Shard := ⟨i,false,source config data i⟩
def parityShard (p : Fin config.m) : Shard := ⟨config.k+p,true,parity h data p⟩

theorem encode_eq_ok {data : Bytes} {shards : List Shard} (he : encode config data = .ok shards) :
    ∃ h : config.IsSupported, shards=(finRange config.k).map (sourceShard data) ++
      (finRange config.m).map (parityShard h data) := by
  simp only [encode] at he
  split_ifs at he with _ h
  exact ⟨h,(Except.ok.inj he).symm⟩

/-- What the decoder holds after shards with these indices have arrived. -/
structure Holds (st : Received config) (seen : Finset Nat) : Prop where
  lookupData : ∀ i, st.data.lookup i =
    if (i : Nat)∈seen then some (source config data i) else none
  lookupParity : ∀ p, st.parity.lookup p =
    if config.k+p∈seen then some (parity h data p) else none
  shardLen : st.shardLen=if seen = ∅ then 0 else shardLen config data
  bound : ∀ x∈seen, x < config.k+config.m

theorem holds_empty : Holds h data ⟨∅,∅,0⟩ ∅ :=
  ⟨fun _ => rfl,fun _ => rfl,rfl,fun _ hx => absurd hx (Finset.notMem_empty _)⟩

variable {h data} in
theorem Holds.max_shardLen {st : Received config} {seen : Finset Nat} (hst : Holds h data st seen)
    (index : Nat) : max st.shardLen (Fec.shardLen config data) =
      if insert index seen = ∅ then 0 else Fec.shardLen config data := by
  rw [hst.shardLen,if_neg (Finset.insert_ne_empty _ _)]
  split_ifs
  · exact max_eq_right (Nat.zero_le _)
  · exact max_self _

variable {h data} in
theorem Holds.insert_source {st : Received config} {seen : Finset Nat}
    (hst : Holds h data st seen) (i : Fin config.k) :
    ∃ st', st.insert (sourceShard data i) = .ok st' ∧ Holds h data st' (insert (i : Nat) seen) := by
  have hi : ¬ config.k ≤ i := not_le.mpr i.isLt
  refine ⟨⟨st.data.insert i (source config data i),st.parity,
    max st.shardLen (source config data i).length⟩,by simp [Received.insert,sourceShard,hi],?_⟩
  refine ⟨fun j => ?_,fun p => ?_,?_,?_⟩
  · simp only [lookup_insert_ite,hst.lookupData j,Finset.mem_insert,Fin.val_inj]
    by_cases hj : j=i
    · simp [hj]
    · simp [hj]
  · have hp : config.k+(p : Nat)≠i := by omega
    simp [hst.lookupParity p,hp]
  · rw [← hst.max_shardLen i,source,length_dataShard]
  · intro x hx
    cases Finset.mem_insert.mp hx with
    | inl he => omega
    | inr hs => exact hst.bound x hs

variable {h data} in
theorem Holds.insert_parity {st : Received config} {seen : Finset Nat}
    (hst : Holds h data st seen) (p : Fin config.m) :
    ∃ st', st.insert (parityShard h data p) = .ok st' ∧
      Holds h data st' (insert (config.k+p) seen) := by
  have hp : ¬ (config.k+p < config.k ∨ config.totalShards ≤ config.k+p) := by
    rw [FecConfig.totalShards]
    omega
  refine ⟨⟨st.data,st.parity.insert p (parity h data p),
    max st.shardLen (parity h data p).length⟩,?_,?_⟩
  · simp only [Received.insert,parityShard,if_true,dif_neg hp,Nat.add_sub_cancel_left]
  refine ⟨fun i => ?_,fun q => ?_,?_,?_⟩
  · have hi : (i : Nat)≠config.k+p := by omega
    simp [hst.lookupData i,hi]
  · simp only [lookup_insert_ite,hst.lookupParity q,Finset.mem_insert,Nat.add_left_cancel_iff,
      Fin.val_inj]
    by_cases hq : q=p
    · simp [hq]
    · simp [hq]
  · rw [← hst.max_shardLen (config.k+p),parity,length_combine]
  · intro x hx
    cases Finset.mem_insert.mp hx with
    | inl he => omega
    | inr hs => exact hst.bound x hs

variable {h data} in
theorem Holds.insert {st : Received config} {seen : Finset Nat} (hst : Holds h data st seen)
    {shard : Shard} (hs : shard∈(finRange config.k).map (sourceShard data) ++
      (finRange config.m).map (parityShard h data)) :
    ∃ st', st.insert shard = .ok st' ∧ Holds h data st' (insert shard.index seen) := by
  simp only [mem_append,mem_map] at hs
  cases hs with
  | inl hsource =>
    obtain ⟨i,-,rfl⟩ := hsource
    exact hst.insert_source i
  | inr hparity =>
    obtain ⟨p,-,rfl⟩ := hparity
    exact hst.insert_parity p

variable {h data} in
theorem Holds.foldlM_insert {received : List Shard}
    (hsub : received ⊆ (finRange config.k).map (sourceShard data) ++
      (finRange config.m).map (parityShard h data))
    {st : Received config} {seen : Finset Nat} (hst : Holds h data st seen) :
    ∃ st', received.foldlM Received.insert st = .ok st' ∧
      Holds h data st' (seen ∪ (received.map Shard.index).toFinset) := by
  induction received generalizing st seen with
  | nil => exact ⟨st,rfl,by simpa using hst⟩
  | cons shard received ih =>
    obtain ⟨hs,hrest⟩ := cons_subset.mp hsub
    obtain ⟨st₁,hst₁,hholds⟩ := hst.insert hs
    obtain ⟨st₂,hst₂,hholds₂⟩ := ih hrest hholds
    refine ⟨st₂,by rw [foldlM_cons,hst₁]; exact hst₂,?_⟩
    rwa [map_cons,toFinset_cons,Finset.union_insert,← Finset.insert_union]

variable {h data}

def known (config : FecConfig) (seen : Finset Nat) : List (Fin config.k) :=
  (finRange config.k).filter fun i : Fin config.k => (i : Nat)∈seen

theorem Holds.mem_data {st : Received config} {seen : Finset Nat} (hst : Holds h data st seen)
    (i : Fin config.k) : i∈st.data ↔ (i : Nat)∈seen := by
  rw [← AList.lookup_isSome,hst.lookupData i]
  by_cases hi : (i : Nat)∈seen <;> simp [hi]

theorem Holds.mem_parity {st : Received config} {seen : Finset Nat} (hst : Holds h data st seen)
    (p : Fin config.m) : p∈st.parity ↔ config.k+p∈seen := by
  rw [← AList.lookup_isSome,hst.lookupParity p]
  by_cases hp : config.k+p∈seen <;> simp [hp]

theorem Holds.known_eq {st : Received config} {seen : Finset Nat} (hst : Holds h data st seen) :
    known config seen=knownData st :=
  filter_congr fun i _ => decide_eq_decide.mpr (hst.mem_data i).symm

theorem Holds.card_eq {st : Received config} {seen : Finset Nat} (hst : Holds h data st seen) :
    st.data.keys.length+st.parity.keys.length=seen.card :=
  card_keys hst.mem_data hst.mem_parity hst.bound

def chosen (st : Received config) (seen : Finset Nat) : List (Fin config.m) :=
  (st.parity.keys.insertionSort (· ≤ ·)).take (config.k-(known config seen).length)

theorem Holds.equations_eq {st : Received config} {seen : Finset Nat}
    (hst : Holds h data st seen) :
    st.equations h=system h data (known config seen) (chosen st seen) := by
  have hchosen : chosen st seen=usedParity st := by
    rw [chosen,hst.known_eq,length_knownData,usedParity]
  rw [FecRecovery.equations_eq,system,hst.known_eq,hchosen]
  congr 1
  · apply map_congr_left
    intro i hi
    have hseen := (hst.mem_data i).mp (by simpa using (mem_filter.mp hi).2)
    rw [hst.lookupData i,if_pos hseen]
    rfl
  · apply map_congr_left
    intro p hp
    have hmem : p∈st.parity :=
      AList.mem_keys.mpr ((mem_insertionSort _).mp (mem_of_mem_take hp))
    rw [hst.lookupParity p,if_pos ((hst.mem_parity p).mp hmem)]
    rfl

/-- With k different indices at hand the solver restores every data shard. -/
theorem Holds.recover_eq {st : Received config} {seen : Finset Nat} (hst : Holds h data st seen)
    (hcard : config.k ≤ seen.card) :
    ∃ final, st.recover h = .ok final ∧ ∀ i, final.lookup i=some (source config data i) := by
  rw [← hst.card_eq] at hcard
  obtain ⟨inverse,hinv,final,hrec,hlookup⟩ := recover_spec st h hcard
  refine ⟨final,hrec,fun i => ?_⟩
  have hsound : ∀ j, Sound data (solverRow st h hcard j) := by
    intro j
    apply sound_system h data
    rw [← hst.equations_eq]
    exact get_mem _ _
  have hseen : seen ≠ ∅ := by
    intro he
    rw [hst.card_eq,he,Finset.card_empty] at hcard
    exact absurd h.1 (by omega)
  rw [hlookup i,hst.shardLen,if_neg hseen,recoverShard_eq_source data hsound hinv i,
    hst.lookupData i]
  by_cases hi : (i : Nat)∈seen
  · rw [if_pos hi,Option.getD_some]
  · rw [if_neg hi,Option.getD_none]
end

/-- Any selection of the encoded shards, in any order and with repetitions, decodes to the
payload if it has k different indices, and is refused if it has fewer. -/
theorem decode_encode (config : FecConfig) (data : Bytes) (shards : List Shard)
    (he : encode config data = .ok shards) (received : List Shard) (hsub : received ⊆ shards) :
    (config.k≤(received.map Shard.index).toFinset.card →
      decode received config data.length = .ok data) ∧
    ((received.map Shard.index).toFinset.card < config.k →
      decode received config data.length =
        .error (.notEnoughShards (received.map Shard.index).toFinset.card config.k)) := by
  obtain ⟨h,rfl⟩ := encode_eq_ok he
  obtain ⟨st,hfold,hst⟩ := (holds_empty h data).foldlM_insert hsub
  rw [Finset.empty_union] at hst
  have hcount := hst.card_eq
  constructor
  · intro hcard
    obtain ⟨final,hrec,hlookup⟩ := hst.recover_eq hcard
    obtain ⟨hlong,htake⟩ := take_sources config h.1 data
    have hkeys := length_keys_of_lookup hlookup
    have hpieces := collect_all hlookup (finRange config.k)
    rw [decode,dif_pos h,hfold]
    change (if st.data.keys.length+st.parity.keys.length < config.k then _ else _)=_
    rw [if_neg (by omega),hrec]
    change (if final.keys.length < config.k then _ else _)=_
    rw [if_neg (by omega),hpieces]
    change (if ((finRange config.k).map (source config data)).flatten.length < data.length
      then _ else Except.ok (((finRange config.k).map (source config data)).flatten.take _))=_
    rw [if_neg (not_lt.mpr hlong)]
    exact congrArg Except.ok htake
  · intro hcard
    rw [decode,dif_pos h,hfold]
    change (if st.data.keys.length+st.parity.keys.length < config.k then
      Except.error (FecError.notEnoughShards (st.data.keys.length+st.parity.keys.length) _) else _)=_
    rw [if_pos (by omega),hcount]

/- Two data shards and one parity shard: the first data shard is lost, the others arrive
   twice. -/
theorem decode_encode_lost_shard : ∃ shards, encode ⟨2,1,1⟩ [7,9] = .ok shards ∧
    decode (shards.drop 1++shards.drop 1) ⟨2,1,1⟩ 2 = .ok [7,9] := by
  refine ⟨_,rfl,(decode_encode ⟨2,1,1⟩ [7,9] _ rfl _ ?_).1 ?_⟩
  · exact append_subset.mpr ⟨drop_subset _ _,drop_subset _ _⟩
  · exact (show ([1,2,1,2] : List Nat).toFinset.card ≥ 2 by decide)

/-- Two payloads of one length differ in more than m of their shards. -/
theorem codewords_apart (config : FecConfig) (data data' : Bytes) {shards shards' common : List Shard}
    (he : encode config data = .ok shards) (he' : encode config data' = .ok shards')
    (hlen : data.length=data'.length) (hne : data≠data') (hsub : common ⊆ shards)
    (hsub' : common ⊆ shards') : (common.map Shard.index).toFinset.card < config.k := by
  obtain ⟨h,rfl⟩ := encode_eq_ok he
  obtain ⟨_,rfl⟩ := encode_eq_ok he'
  obtain ⟨st,hfold,hst⟩ := (holds_empty h data).foldlM_insert hsub
  obtain ⟨st',hfold',hst'⟩ := (holds_empty h data').foldlM_insert hsub'
  obtain rfl := Except.ok.inj (hfold.symm.trans hfold')
  rw [Finset.empty_union] at hst hst'
  by_contra hcard
  -- k shards in common would be decoded to both payloads
  obtain ⟨final,hrec,hlookup⟩ := hst.recover_eq (not_lt.mp hcard)
  obtain ⟨final',hrec',hlookup'⟩ := hst'.recover_eq (not_lt.mp hcard)
  obtain rfl := Except.ok.inj (hrec.symm.trans hrec')
  have hsources : source config data=source config data' :=
    funext fun i => Option.some.inj ((hlookup i).symm.trans (hlookup' i))
  apply hne
  rw [← (take_sources config h.1 data).2,← (take_sources config h.1 data').2,hsources,hlen]

theorem codewords_apart_one_byte : (([⟨0,false,[7]⟩] : List Shard).map Shard.index).toFinset.card<2 :=
  codewords_apart ⟨2,1,1⟩ [7,9] [7,8] rfl rfl rfl (by decide) (by decide +kernel) (by decide +kernel)

end AetherX.FecRecovery
