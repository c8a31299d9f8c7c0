import AetherX.Merkle

/-! The hash-chained audit log and its Merkle root: what a loaded record list must
look like for verify to accept it, and what the root of a log pins down. -/
namespace AetherX.Audit
open HashTree PairLevels Sha256 Merkle

structure Record where
  seq : UInt64
  payload : Bytes
  prevHash : Digest
  hash : Digest
  deriving DecidableEq

/- The one constructor of the crate's error type that the log returns. -/
inductive AntiForgeryError where
  | auditTamper (seq : UInt64)
  deriving DecidableEq

structure AuditLog where
  records : List Record

def toLeBytes (n : UInt64) : Bytes := (List.range 8).map fun i => (n >>> (8*UInt64.ofNat i)).toUInt8

def AuditLog.new : AuditLog := ⟨[]⟩

def AuditLog.fromRecords (records : List Record) : AuditLog := ⟨records⟩

def AuditLog.rootHash (log : AuditLog) : Digest :=
  (log.records.getLast?.map Record.hash).getD Digest.zero

section
variable (sha256 : Bytes → Digest)

def recordHash (seq : UInt64) (prevHash : Digest) (payload : Bytes) : Digest :=
  sha256 (toLeBytes seq++prevHash.bytes++payload)

def AuditLog.append (log : AuditLog) (payload : Bytes) : AuditLog × UInt64 :=
  let seq := UInt64.ofNat log.records.length
  let prevHash := log.rootHash
  let hash := recordHash sha256 seq prevHash payload
  (⟨log.records++[⟨seq,payload,prevHash,hash⟩]⟩, seq)

def AuditLog.merkleRoot (log : AuditLog) : Digest :=
  (MerkleTree.fromLeaves sha256 (log.records.map Record.payload)).root.getD Digest.zero

/- The loop of verify, with the hash it carries from record to record. -/
def verifyFrom (prev : Digest) : List Record → Except AntiForgeryError Unit
  | [] => .ok ()
  | r::rest =>
    if r.prevHash≠prev then .error (.auditTamper r.seq)
    else if recordHash sha256 r.seq r.prevHash r.payload≠r.hash then .error (.auditTamper r.seq)
    else verifyFrom r.hash rest

def AuditLog.verify (log : AuditLog) : Except AntiForgeryError Unit :=
  verifyFrom sha256 Digest.zero log.records
end

variable (sha256 : Bytes → Digest)

def appendAll (payloads : List Bytes) : AuditLog :=
  payloads.foldl (fun log payload => (log.append sha256 payload).1) AuditLog.new

/- The records appended after k earlier ones, the last of which hashed to prev. -/
def chainFrom (k : Nat) (prev : Digest) : List Bytes → List Record
  | [] => []
  | payload::rest =>
    let hash := recordHash sha256 (UInt64.ofNat k) prev payload
    ⟨UInt64.ofNat k,payload,prev,hash⟩::chainFrom (k+1) hash rest

variable (payloads : List Bytes) {D : Type*}

theorem foldl_append_records (log : AuditLog) :
    (payloads.foldl (fun log payload => (log.append sha256 payload).1) log).records =
      log.records++chainFrom sha256 log.records.length log.rootHash payloads := by
  induction payloads generalizing log with
  | nil => simp [chainFrom]
  | cons payload rest ih =>
    rw [List.foldl_cons,ih]
    simp [AuditLog.append,AuditLog.rootHash,chainFrom]

theorem appendAll_records :
    (appendAll sha256 payloads).records=chainFrom sha256 0 Digest.zero payloads := by
  rw [appendAll,foldl_append_records]
  rfl

theorem chainFrom_payloads (k : Nat) (prev : Digest) (payloads : List Bytes) :
    (chainFrom sha256 k prev payloads).map Record.payload=payloads := by
  induction payloads generalizing k prev with
  | nil => rfl
  | cons payload rest ih => simp [chainFrom,ih]

theorem appendAll_payloads : (appendAll sha256 payloads).records.map Record.payload=payloads := by
  rw [appendAll_records,chainFrom_payloads]

/-- Every record names the hash before it and carries the hash of its own fields. -/
def Linked (prev : Digest) : List Record → Prop
  | [] => True
  | r::rest => r.prevHash=prev ∧ r.hash=recordHash sha256 r.seq r.prevHash r.payload ∧
      Linked r.hash rest

def InOrder (k : Nat) : List Record → Prop
  | [] => True
  | r::rest => r.seq=UInt64.ofNat k ∧ InOrder (k+1) rest

theorem verifyFrom_ok_iff (prev : Digest) (records : List Record) :
    verifyFrom sha256 prev records = .ok () ↔ Linked sha256 prev records := by
  induction records generalizing prev with
  | nil => simp [verifyFrom,Linked]
  | cons r rest ih =>
    simp only [verifyFrom,Linked]
    split_ifs with hp hh
    · simp [hp]
    · simp [Ne.symm hh]
    · rw [ih]
      simp_all

theorem eq_chainFrom_iff (k : Nat) (prev : Digest) (records : List Record) :
    records=chainFrom sha256 k prev (records.map Record.payload) ↔
      Linked sha256 prev records ∧ InOrder k records := by
  induction records generalizing k prev with
  | nil => simp [chainFrom,Linked,InOrder]
  | cons r rest ih =>
    obtain ⟨seq,payload,prevHash,hash⟩ := r
    simp only [List.map_cons,chainFrom,List.cons.injEq,Record.mk.injEq,true_and,Linked,
      InOrder]
    constructor
    · rintro ⟨⟨rfl,rfl,rfl⟩,hrest⟩
      obtain ⟨hl,ho⟩ := (ih _ _).mp hrest
      exact ⟨⟨rfl,rfl,hl⟩,rfl,ho⟩
    · rintro ⟨⟨rfl,rfl,hl⟩,rfl,ho⟩
      exact ⟨⟨rfl,rfl,rfl⟩,(ih _ _).mpr ⟨hl,ho⟩⟩

/- Verification never looks at how the sequence numbers run, so it is exact on a list
   only if an intact chain there is also numbered from zero. -/
theorem verify_exact_iff (records : List Record) :
    ((AuditLog.fromRecords records).verify sha256 = .ok () ↔
      records=(appendAll sha256 (records.map Record.payload)).records) ↔
    (Linked sha256 Digest.zero records → InOrder 0 records) := by
  rw [appendAll_records,eq_chainFrom_iff,AuditLog.verify,AuditLog.fromRecords,
    verifyFrom_ok_iff]
  tauto

/- The second record of a log alone, relinked to the zero hash. -/
theorem verify_accepts_dropped_front :
    ¬ ∀ records : List Record,
      (AuditLog.fromRecords records).verify Sha256.sha256 = .ok () ↔
        records=(appendAll Sha256.sha256 (records.map Record.payload)).records := by
  intro hall
  have h := (hall [⟨1,[2],Digest.zero,recordHash Sha256.sha256 1 Digest.zero [2]⟩]).mp
    (by simp [AuditLog.verify,AuditLog.fromRecords,verifyFrom])
  simp [appendAll_records,chainFrom] at h

theorem paddedTree_nil : paddedTree ([] : List D)=none := top_nil _

theorem paddedLeaves_nil : paddedLeaves ([] : List D)=[] := by
  simp [paddedLeaves,top_nil]

theorem merkleRoot_appendAll :
    (appendAll sha256 payloads).merkleRoot sha256 =
      ((paddedTree payloads).map (LeafTree.root (scheme sha256))).getD Digest.zero := by
  rw [AuditLog.merkleRoot,appendAll_payloads]
  rcases eq_or_ne payloads [] with rfl | hne
  · rw [paddedTree_nil]
    rfl
  · rw [root_fromLeaves sha256 hne]

/- Equal bottom rows come from equal trees, whatever the leaf counts were. -/
theorem paddedTree_eq_iff {ps qs : List Bytes} :
    paddedTree ps=paddedTree qs ↔ paddedLeaves ps=paddedLeaves qs := by
  rcases eq_or_ne ps [] with rfl | hp <;> rcases eq_or_ne qs [] with rfl | hq
  · simp
  · obtain ⟨u,hu,-,hl⟩ := paddedTree_spec hq
    simp [hu,← hl,paddedTree_nil,paddedLeaves_nil,u.leaves_ne_nil.symm]
  · obtain ⟨t,ht,-,hl⟩ := paddedTree_spec hp
    simp [ht,← hl,paddedTree_nil,paddedLeaves_nil,t.leaves_ne_nil]
  · obtain ⟨t,ht,htp,htl⟩ := paddedTree_spec hp
    obtain ⟨u,hu,hup,hul⟩ := paddedTree_spec hq
    rw [ht,hu,← htl,← hul,Option.some_inj]
    refine ⟨fun h => h ▸ rfl,fun hl => ?_⟩
    have hlen := congrArg List.length hl
    rw [LeafTree.length_leaves htp,LeafTree.length_leaves hup] at hlen
    rw [Nat.pow_right_injective (le_refl 2) hlen] at htp
    exact htp.eq_of_leaves hup hl

def rootInputs (ps qs : List Bytes) : List Bytes := treeInputs sha256 ps++treeInputs sha256 qs

theorem paddedTree_eq_or_broken {ps qs : List Bytes}
    (h : (appendAll sha256 ps).merkleRoot sha256=(appendAll sha256 qs).merkleRoot sha256) :
    paddedTree ps=paddedTree qs ∨ Collides sha256 (rootInputs sha256 ps qs) ∨
      ∃ x∈rootInputs sha256 ps qs, sha256 x=Digest.zero := by
  rw [merkleRoot_appendAll,merkleRoot_appendAll] at h
  simp only [rootInputs,treeInputs]
  cases hp : paddedTree ps with
  | none =>
    cases hq : paddedTree qs with
    | none => exact .inl rfl
    | some u =>
      obtain ⟨x,hx,he⟩ := u.root_hashed (scheme sha256)
      simp only [hp,hq,Option.map_none,Option.map_some,Option.getD_none,Option.getD_some] at h
      exact .inr (.inr ⟨x,by simpa using hx,he.trans h.symm⟩)
  | some t =>
    cases hq : paddedTree qs with
    | none =>
      obtain ⟨x,hx,he⟩ := t.root_hashed (scheme sha256)
      simp only [hp,hq,Option.map_none,Option.map_some,Option.getD_none,Option.getD_some] at h
      exact .inr (.inr ⟨x,by simpa using hx,he.trans h⟩)
    | some u =>
      simp only [hp,hq,Option.map_some,Option.getD_some] at h
      rcases LeafTree.eq_or_collides (scheme sha256) t u h with rfl | hc
      · exact .inl rfl
      · exact .inr (.inl hc)

/- Two logs share a root as soon as padding grows them into the same bottom row, so
   the root binds unless one log is the other extended by copies that padding makes. -/
theorem merkleRoot_binds_iff (ps qs : List Bytes) :
    ((appendAll sha256 ps).merkleRoot sha256=(appendAll sha256 qs).merkleRoot sha256 →
      (appendAll sha256 ps).records.map Record.payload =
        (appendAll sha256 qs).records.map Record.payload ∨
      Collides sha256 (rootInputs sha256 ps qs) ∨
      ∃ x∈rootInputs sha256 ps qs, sha256 x=Digest.zero) ↔
    ((paddedLeaves ps=paddedLeaves qs → ps=qs) ∨
      Collides sha256 (rootInputs sha256 ps qs) ∨
      ∃ x∈rootInputs sha256 ps qs, sha256 x=Digest.zero) := by
  rw [appendAll_payloads,appendAll_payloads,← paddedTree_eq_iff]
  constructor
  · intro hbind
    by_cases ht : paddedTree ps=paddedTree qs
    · rcases hbind (by rw [merkleRoot_appendAll,merkleRoot_appendAll,ht]) with h | hbroken
      · exact .inl fun _ => h
      · exact .inr hbroken
    · exact .inl fun h => absurd h ht
  · rintro (hpad | hbroken) hroot
    · rcases paddedTree_eq_or_broken sha256 hroot with ht | hbroken
      · exact .inl (hpad ht)
      · exact .inr hbroken
    · exact .inr hbroken

theorem paddedTree_thrice (a : D) :
    paddedTree [a,a,a]=some (.node (.node (.leaf a) (.leaf a)) (.node (.leaf a) (.leaf a))) := by
  simp [paddedTree,top_of_one_lt,nextRow,padLast,pairUp,top_singleton]

theorem paddedTree_four_times (a : D) : paddedTree [a,a,a,a]=paddedTree [a,a,a] := by
  rw [paddedTree_thrice]
  simp [paddedTree,top_of_one_lt,nextRow,padLast,pairUp,top_singleton]

def thriceInputs (a : Bytes) : List Bytes :=
  let leaf := leafHash sha256 a
  let pair := parentHash sha256 leaf leaf
  [leafMessage a,parentMessage leaf leaf,parentMessage pair pair]

theorem rootInputs_thrice (a : Bytes) :
    rootInputs sha256 [a,a,a] [a,a,a,a] ⊆ thriceInputs sha256 a := by
  rw [rootInputs,treeInputs,treeInputs,paddedTree_four_times,paddedTree_thrice]
  intro x hx
  simp only [Option.map_some,Option.getD_some,LeafTree.messages,List.mem_append,List.mem_cons,
    List.not_mem_nil,or_false] at hx
  simp only [thriceInputs,List.mem_cons,List.not_mem_nil,or_false]
  tauto

/- SHA-256 keeps the three apart and sends none of them to the zero digest. -/
theorem thrice_distinct :
    ((thriceInputs Sha256.sha256 [1]).map Sha256.sha256++[Digest.zero]).Nodup := by
  decide +kernel

/- Three equal records and four equal records have one root. -/
theorem merkleRoot_hides_last_copy :
    ¬ ∀ ps qs : List Bytes,
      (appendAll Sha256.sha256 ps).merkleRoot Sha256.sha256 =
        (appendAll Sha256.sha256 qs).merkleRoot Sha256.sha256 →
      (appendAll Sha256.sha256 ps).records.map Record.payload =
        (appendAll Sha256.sha256 qs).records.map Record.payload ∨
      Collides Sha256.sha256 (rootInputs Sha256.sha256 ps qs) ∨
      ∃ x∈rootInputs Sha256.sha256 ps qs, Sha256.sha256 x=Digest.zero := by
  intro hall
  have hsub := rootInputs_thrice Sha256.sha256 [1]
  obtain ⟨hnodup,-,hzero⟩ := List.nodup_append.mp thrice_distinct
  rcases hall [[1],[1],[1]] [[1],[1],[1],[1]]
    (by rw [merkleRoot_appendAll,merkleRoot_appendAll,paddedTree_four_times]) with h | hc | hz
  · simp [appendAll_payloads] at h
  · exact not_collides_of_nodup hnodup (hc.mono hsub)
  · obtain ⟨x,hx,he⟩ := hz
    exact hzero _ (List.mem_map_of_mem (hsub hx)) _ (List.mem_singleton_self _) he

end AetherX.Audit
