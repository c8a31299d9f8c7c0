import AetherX.Audit
import AetherX.BigEndian
import AetherX.Framing

/-! What the last hash of a verified chain commits to. Two chains that end in one hash are walked
back together; the first place where they part is a collision, or one of them has run out and the
other has hashed a record to the zero hash. -/
namespace AetherX.AuditBinding
open Sha256 Merkle BigEndian Framing Audit List

theorem toUInt8_shiftRight (n : UInt64) {i : Nat} (hi : i<8) :
    (n >>> (8*UInt64.ofNat i)).toUInt8=UInt8.ofNat (n.toNat/2^(8*i)) := by
  apply UInt8.toNat_inj.mp
  have hshift : (8*UInt64.ofNat i).toNat=8*i := by
    simp
    omega
  rw [UInt64.toNat_toUInt8,UInt64.toNat_shiftRight,UInt8.toNat_ofNat',Nat.shiftRight_eq_div_pow,
    hshift,Nat.mod_eq_of_lt (by omega : 8*i<64)]

theorem toLeBytes_eq (n : UInt64) : toLeBytes n=(toBytes 8 n.toNat).reverse := by
  have hmap : toLeBytes n=(range 8).map fun i => UInt8.ofNat (n.toNat/2^(8*i)) :=
    map_congr_left fun i hi => toUInt8_shiftRight n (mem_range.mp hi)
  rw [hmap]
  simp [toBytes,range_succ,Nat.div_div_eq_div_mul]

theorem length_toLeBytes (n : UInt64) : (toLeBytes n).length=8 := by
  rw [toLeBytes_eq,length_reverse,length_toBytes]

theorem toLeBytes_injective : Function.Injective toLeBytes := by
  intro n m heq
  rw [toLeBytes_eq,toLeBytes_eq,reverse_inj] at heq
  have hnat := congrArg ofBytes heq
  rw [ofBytes_toBytes,ofBytes_toBytes,Nat.mod_eq_of_lt (show n.toNat<256^8 from n.toNat_lt),
    Nat.mod_eq_of_lt (show m.toNat<256^8 from m.toNat_lt)] at hnat
  exact UInt64.toNat_inj.mp hnat

theorem selfDelimiting_toLeBytes : SelfDelimiting Set.univ toLeBytes :=
  selfDelimiting_of_width (fun n _ => length_toLeBytes n) toLeBytes_injective.injOn

theorem selfDelimiting_digest : SelfDelimiting Set.univ Digest.bytes :=
  selfDelimiting_of_width (fun d _ => d.size) fun _ _ _ _ heq => Digest.ext_bytes heq

structure Input where
  seq : UInt64
  prevHash : Digest
  payload : Bytes
  deriving DecidableEq

def Input.message (x : Input) : Bytes := toLeBytes x.seq++x.prevHash.bytes++x.payload

/-- The fields have fixed widths, so one message is one input. -/
theorem message_injective : Function.Injective Input.message := by
  intro x y heq
  simp only [Input.message,append_assoc] at heq
  obtain ⟨hseq,hrest⟩ := selfDelimiting_toLeBytes _ trivial _ trivial _ _ heq
  obtain ⟨hprev,hpayload⟩ := selfDelimiting_digest _ trivial _ trivial _ _ hrest
  cases x
  cases y
  simp_all

def inputOf (r : Record) : Input := ⟨r.seq,r.prevHash,r.payload⟩

inductive Finding where
  | collision (x y : Input)
  | zeroPreimage (x : Input)
  deriving DecidableEq

/- The walk back: both lists have their last record first. -/
def walkBack : List Record → List Record → Option Finding
  | [], [] => none
  | r::_, [] | [], r::_ => some (.zeroPreimage (inputOf r))
  | r::rs, q::qs =>
    if inputOf r=inputOf q then walkBack rs qs else some (.collision (inputOf r) (inputOf q))

def chainClash (A B : AuditLog) : Option Finding := walkBack A.records.reverse B.records.reverse

variable (sha256 : Bytes → Digest)

def Input.hash (x : Input) : Digest := recordHash sha256 x.seq x.prevHash x.payload

/-- The finding is what it says, about inputs that stand in the two lists. -/
def Finding.Holds (xs ys : List Record) : Finding → Prop
  | .collision x y => x∈xs.map inputOf ∧ y∈ys.map inputOf ∧ x≠y ∧ x.message≠y.message ∧
      x.hash sha256=y.hash sha256
  | .zeroPreimage x => x∈(xs++ys).map inputOf ∧ x.hash sha256=Digest.zero

variable {sha256}

theorem Finding.Holds.mono {xs xs' ys ys' : List Record} {f : Finding} (hx : xs ⊆ xs')
    (hy : ys ⊆ ys') (h : f.Holds sha256 xs ys) : f.Holds sha256 xs' ys' := by
  cases f with
  | collision x y => exact ⟨map_subset _ hx h.1,map_subset _ hy h.2.1,h.2.2⟩
  | zeroPreimage x =>
    have hsub : xs++ys ⊆ xs'++ys' := append_subset.mpr
      ⟨subset_append_of_subset_left _ hx,subset_append_of_subset_right _ hy⟩
    exact ⟨map_subset _ hsub h.1,h.2⟩

def lastHash (prev : Digest) (xs : List Record) : Digest := (xs.getLast?.map Record.hash).getD prev

theorem linked_concat (prev : Digest) (xs : List Record) (r : Record) :
    Linked sha256 prev (xs++[r]) ↔
      Linked sha256 prev xs ∧ r.prevHash=lastHash prev xs ∧ r.hash=(inputOf r).hash sha256 := by
  induction xs generalizing prev with
  | nil => simp [Linked,lastHash,inputOf,Input.hash]
  | cons x xs ih =>
    have hlast : lastHash prev (x::xs)=lastHash x.hash xs := by
      cases xs <;> simp [lastHash,getLast?_cons]
    rw [cons_append,Linked,ih,Linked,hlast]
    tauto

theorem record_ext {r q : Record} (hinput : inputOf r=inputOf q) (hhash : r.hash=q.hash) :
    r=q := by
  cases r
  cases q
  simp_all [inputOf]

/- Induction over the first list from its end. The hashes of the two last records agree, so
   either the records agree and the lists before them end in one hash again, or their inputs
   collide. -/
theorem eq_or_walkBack (xs ys : List Record) (hx : Linked sha256 Digest.zero xs)
    (hy : Linked sha256 Digest.zero ys)
    (hlast : lastHash Digest.zero xs=lastHash Digest.zero ys) :
    xs=ys ∨ ∃ f, walkBack xs.reverse ys.reverse=some f ∧ f.Holds sha256 xs ys := by
  induction xs using reverseRecOn generalizing ys with
  | nil =>
    cases ys using reverseRecOn with
    | nil => exact .inl rfl
    | append_singleton ys q =>
      obtain ⟨-,-,hq⟩ := (linked_concat _ _ _).mp hy
      have hzero : q.hash=Digest.zero := by simpa [lastHash] using hlast.symm
      refine .inr ⟨.zeroPreimage (inputOf q),by simp [walkBack],by simp,?_⟩
      rw [← hq,hzero]
  | append_singleton xs r ih =>
    obtain ⟨hxs,hrprev,hr⟩ := (linked_concat _ _ _).mp hx
    cases ys using reverseRecOn with
    | nil =>
      have hzero : r.hash=Digest.zero := by simpa [lastHash] using hlast
      refine .inr ⟨.zeroPreimage (inputOf r),by simp [walkBack],by simp,?_⟩
      rw [← hr,hzero]
    | append_singleton ys q =>
      obtain ⟨hys,hqprev,hq⟩ := (linked_concat _ _ _).mp hy
      have hhash : r.hash=q.hash := by simpa [lastHash] using hlast
      rw [reverse_concat',reverse_concat',walkBack]
      by_cases hinput : inputOf r=inputOf q
      · have hprev : r.prevHash=q.prevHash := congrArg Input.prevHash hinput
        rw [if_pos hinput,record_ext hinput hhash]
        cases ih ys hxs hys (by rw [← hrprev,← hqprev,hprev]) with
        | inl heq => exact .inl (by rw [heq])
        | inr hfound =>
          obtain ⟨f,hf,hholds⟩ := hfound
          exact .inr ⟨f,hf,hholds.mono (subset_append_left _ _) (subset_append_left _ _)⟩
      · rw [if_neg hinput]
        refine .inr ⟨_,rfl,by simp,by simp,hinput,fun h => hinput (message_injective h),?_⟩
        rw [← hr,← hq,hhash]

/-- One root of two logs that verify is one list of records, or the two lists yield two different
inputs of record_hash with one digest, or an input whose digest is all zero. -/
theorem rootHash_binds (sha256 : Bytes → Digest) (A B : AuditLog) (hA : A.verify sha256 = .ok ())
    (hB : B.verify sha256 = .ok ()) (hroot : A.rootHash=B.rootHash) :
    A.records=B.records ∨
      ∃ f, chainClash A B=some f ∧ f.Holds sha256 A.records B.records :=
  eq_or_walkBack A.records B.records ((verifyFrom_ok_iff sha256 _ _).mp hA)
    ((verifyFrom_ok_iff sha256 _ _).mp hB) hroot

/- Under a hash without any content an empty log and a log of one record share their root. -/
theorem rootHash_binds_constant : ∃ f, chainClash AuditLog.new
    (appendAll (fun _ => Digest.zero) [[1]])=some f ∧
    f.Holds (fun _ => Digest.zero) [] (appendAll (fun _ => Digest.zero) [[1]]).records := by
  have hbind := rootHash_binds (fun _ => Digest.zero) AuditLog.new
    (appendAll (fun _ => Digest.zero) [[1]]) rfl rfl rfl
  cases hbind with
  | inl heq => exact absurd (congrArg length heq) (by decide)
  | inr hfound => exact hfound

end AetherX.AuditBinding
