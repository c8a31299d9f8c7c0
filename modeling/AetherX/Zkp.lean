import Mathlib.Data.Finset.Basic
import AetherX.HashTree
import AetherX.Machine
import AetherX.Sha256

/-! Authentication by commitment and nullifier. The verifier remembers nullifiers, and a
response only shows that whoever made it could hash three public values, so what it can
rule out depends on the proofs that can be presented to it. -/
namespace AetherX.Zkp
open HashTree Machine Sha256 List

section
variable (hash : List UInt8 → Digest)

def ascii (text : String) : List UInt8 := text.toList.map fun c => UInt8.ofNat c.toNat

def Commitment.fromToken (token : List UInt8) (blinding : Digest) : Digest :=
  hash (token++blinding.bytes)

structure ZkProof where
  commitment : Digest
  nullifier : Digest
  challengeResponse : Digest
  merkleRoot : Digest
  deriving DecidableEq

def ZkProof.message (p : ZkProof) : List UInt8 :=
  p.commitment.bytes++p.nullifier.bytes++p.merkleRoot.bytes

inductive ZkError where
  | invalidCommitment
  | invalidMerkleRoot
  | nullifierAlreadyUsed
  | invalidProof
  deriving DecidableEq

structure ZkVerificationResult where
  commitment : Digest
  verifiedAt : Int
  isValid : Bool

structure ZkpVerifier where
  validCommitments : Finset Digest
  usedNullifiers : Finset Digest
  merkleRoot : Digest
  verifiedCount : Nat

def ZkpVerifier.new (initialRoot : Digest) : ZkpVerifier := ⟨∅,∅,initialRoot,0⟩

def ZkpVerifier.addCommitment (v : ZkpVerifier) (commitment : Digest) : ZkpVerifier :=
  { v with validCommitments := insert commitment v.validCommitments }

def ZkpVerifier.verifyProof (v : ZkpVerifier) (p : ZkProof) (nowUnix : Int) :
    ZkpVerifier × Except ZkError ZkVerificationResult :=
  if p.merkleRoot≠v.merkleRoot then (v, .error .invalidMerkleRoot)
  else if p.commitment∉v.validCommitments then (v, .error .invalidCommitment)
  else if p.nullifier∈v.usedNullifiers then (v, .error .nullifierAlreadyUsed)
  else if p.challengeResponse≠hash p.message then (v, .error .invalidProof)
  else ({ v with
      usedNullifiers := insert p.nullifier v.usedNullifiers
      verifiedCount := v.verifiedCount+1 },
    .ok ⟨p.commitment,nowUnix,true⟩)

def createProof (token : List UInt8) (blinding merkleRoot : Digest) : ZkProof :=
  let commitment := Commitment.fromToken hash token blinding
  let nullifier := hash (token++ascii "nullifier-domain-separator")
  ⟨commitment,nullifier,hash (commitment.bytes++nullifier.bytes++merkleRoot.bytes),
    merkleRoot⟩

/- A proof put together from a commitment and a root seen in an accepted proof. -/
def assemble (commitment nullifier merkleRoot : Digest) : ZkProof :=
  ⟨commitment,nullifier,hash (commitment.bytes++nullifier.bytes++merkleRoot.bytes),
    merkleRoot⟩

structure Session where
  verifier : ZkpVerifier
  accepted : List ZkProof

def Session.next (s : Session) (call : ZkProof × Int) : Session :=
  match s.verifier.verifyProof hash call.1 call.2 with
  | (v, .ok _) => ⟨v,s.accepted++[call.1]⟩
  | (v, .error _) => ⟨v,s.accepted⟩

def registered (root : Digest) (commitments : List Digest) : ZkpVerifier :=
  commitments.foldl ZkpVerifier.addCommitment (.new root)

def session (root : Digest) (commitments : List Digest) (calls : List (ZkProof × Int)) : Session :=
  calls.foldl (Session.next hash) ⟨registered root commitments,[]⟩

/-- Everything verification asks of a proof besides a fresh nullifier. -/
structure WellFormed (v : ZkpVerifier) (p : ZkProof) : Prop where
  root : p.merkleRoot=v.merkleRoot
  commitment : p.commitment∈v.validCommitments
  response : p.challengeResponse=hash p.message
end

variable {hash : List UInt8 → Digest}

variable {p : ZkProof} {v : ZkpVerifier} {s : Session}

/-- Proofs for one commitment under one root hash different messages unless they carry the
same nullifier. -/
theorem message_ne {q : ZkProof} (hne : p.nullifier≠q.nullifier) : p.message≠q.message := by
  intro heq
  obtain ⟨hfront,_⟩ := append_inj' heq (p.merkleRoot.size.trans q.merkleRoot.size.symm)
  obtain ⟨_,hnullifier⟩ := append_inj' hfront (p.nullifier.size.trans q.nullifier.size.symm)
  exact hne (Digest.ext_bytes hnullifier)

theorem verifyProof_accepts (h : WellFormed hash v p) (hfresh : p.nullifier∉v.usedNullifiers)
    (nowUnix : Int) :
    v.verifyProof hash p nowUnix =
      ({ v with
        usedNullifiers := insert p.nullifier v.usedNullifiers
        verifiedCount := v.verifiedCount+1 }, .ok ⟨p.commitment,nowUnix,true⟩) := by
  rw [ZkpVerifier.verifyProof,if_neg (not_not_intro h.root),if_neg (not_not_intro h.commitment),
    if_neg hfresh,if_neg (not_not_intro h.response)]

/-- Either a proof is well formed with a fresh nullifier, or the verifier stays as it is. -/
theorem verifyProof_cases (hash : List UInt8 → Digest) (v : ZkpVerifier) (p : ZkProof)
    (nowUnix : Int) :
    (WellFormed hash v p ∧ p.nullifier∉v.usedNullifiers) ∨
      ∃ e, v.verifyProof hash p nowUnix=(v, .error e) := by
  by_cases hroot : p.merkleRoot=v.merkleRoot
  · by_cases hcommitment : p.commitment∈v.validCommitments
    · by_cases hused : p.nullifier∈v.usedNullifiers
      · refine Or.inr ⟨.nullifierAlreadyUsed,?_⟩
        rw [ZkpVerifier.verifyProof,if_neg (not_not_intro hroot),
          if_neg (not_not_intro hcommitment),if_pos hused]
      · by_cases hresponse : p.challengeResponse=hash p.message
        · exact Or.inl ⟨⟨hroot,hcommitment,hresponse⟩,hused⟩
        · refine Or.inr ⟨.invalidProof,?_⟩
          rw [ZkpVerifier.verifyProof,if_neg (not_not_intro hroot),
            if_neg (not_not_intro hcommitment),if_neg hused,if_pos hresponse]
    · refine Or.inr ⟨.invalidCommitment,?_⟩
      rw [ZkpVerifier.verifyProof,if_neg (not_not_intro hroot),if_pos hcommitment]
  · refine Or.inr ⟨.invalidMerkleRoot,?_⟩
    rw [ZkpVerifier.verifyProof,if_pos hroot]

theorem next_accepts (h : WellFormed hash s.verifier p)
    (hfresh : p.nullifier∉s.verifier.usedNullifiers) (nowUnix : Int) :
    s.next hash (p, nowUnix) =
      ⟨{ s.verifier with
        usedNullifiers := insert p.nullifier s.verifier.usedNullifiers
        verifiedCount := s.verifier.verifiedCount+1 },s.accepted++[p]⟩ := by
  rw [Session.next,verifyProof_accepts h hfresh]

/-- The accepted proofs were presented and were well formed, and each brought a nullifier
of its own. -/
structure Sound (hash : List UInt8 → Digest) (v : ZkpVerifier) (presented : List (ZkProof × Int))
    (s : Session) : Prop where
  root : s.verifier.merkleRoot=v.merkleRoot
  commitments : s.verifier.validCommitments=v.validCommitments
  presented : ∀ p∈s.accepted, ∃ now, (p, now)∈presented
  wellFormed : ∀ p∈s.accepted, WellFormed hash v p
  used : ∀ p∈s.accepted, p.nullifier∈s.verifier.usedNullifiers
  nullifiers : (s.accepted.map ZkProof.nullifier).Nodup

variable {presented : List (ZkProof × Int)} {root : Digest}

theorem Sound.accept (h : Sound hash v presented s) {now : Int} (hcall : (p, now)∈presented)
    (hp : WellFormed hash s.verifier p) (hfresh : p.nullifier∉s.verifier.usedNullifiers) :
    Sound hash v presented (s.next hash (p, now)) := by
  rw [next_accepts hp hfresh]
  have hmem : ∀ {q}, q∈s.accepted++[p] → q∈s.accepted ∨ q=p := by
    intro q hq
    rw [mem_append,mem_singleton] at hq
    exact hq
  refine ⟨h.root,h.commitments,fun q hq => ?_,fun q hq => ?_,fun q hq => ?_,?_⟩
  · rcases hmem hq with hq | rfl
    · exact h.presented q hq
    · exact ⟨now,hcall⟩
  · rcases hmem hq with hq | rfl
    · exact h.wellFormed q hq
    · exact ⟨hp.root.trans h.root,h.commitments ▸ hp.commitment,hp.response⟩
  · rcases hmem hq with hq | rfl
    · exact Finset.mem_insert_of_mem (h.used q hq)
    · exact Finset.mem_insert_self _ _
  · rw [map_append,map_singleton,nodup_append]
    refine ⟨h.nullifiers,nodup_singleton _,fun n hn m hm heq => ?_⟩
    obtain ⟨q,hq,rfl⟩ := mem_map.mp hn
    rw [mem_singleton.mp hm] at heq
    exact hfresh (heq ▸ h.used q hq)

theorem Sound.step (h : Sound hash v presented s) {call : ZkProof × Int}
    (hcall : call∈presented) : Sound hash v presented (s.next hash call) := by
  rcases verifyProof_cases hash s.verifier call.1 call.2 with hcase | ⟨e,he⟩
  · exact h.accept hcall hcase.1 hcase.2
  · rw [Session.next,he]
    exact h

theorem sound_foldl {calls : List (ZkProof × Int)} (hcalls : ∀ call∈calls, call∈presented)
    (h : Sound hash v presented s) :
    Sound hash v presented (calls.foldl (Session.next hash) s) := by
  induction calls generalizing s with
  | nil => exact h
  | cons call calls ih =>
    exact ih (fun c hc => hcalls c (mem_cons_of_mem _ hc))
      (h.step (hcalls call mem_cons_self))

theorem foldl_addCommitment (commitments : List Digest) (v : ZkpVerifier) :
    (commitments.foldl ZkpVerifier.addCommitment v).usedNullifiers=v.usedNullifiers ∧
      (commitments.foldl ZkpVerifier.addCommitment v).merkleRoot=v.merkleRoot ∧
      ∀ c, c∈(commitments.foldl ZkpVerifier.addCommitment v).validCommitments ↔
        c∈commitments ∨ c∈v.validCommitments := by
  induction commitments generalizing v with
  | nil => simp
  | cons c commitments ih =>
    obtain ⟨hused,hroot,hvalid⟩ := ih (v.addCommitment c)
    refine ⟨hused,hroot,fun d => ?_⟩
    rw [foldl_cons,hvalid,ZkpVerifier.addCommitment,Finset.mem_insert,mem_cons,
      or_left_comm,or_assoc]

theorem registered_fresh (root : Digest) (commitments : List Digest) :
    (registered root commitments).usedNullifiers = ∅ :=
  (foldl_addCommitment commitments (.new root)).1

theorem registered_root (root : Digest) (commitments : List Digest) :
    (registered root commitments).merkleRoot=root :=
  (foldl_addCommitment commitments (.new root)).2.1

theorem mem_registered {c : Digest} {commitments : List Digest} (h : c∈commitments) :
    c∈(registered root commitments).validCommitments :=
  ((foldl_addCommitment commitments (.new root)).2.2 c).mpr (Or.inl h)

theorem sound_session (hash : List UInt8 → Digest) (root : Digest) (commitments : List Digest)
    (calls : List (ZkProof × Int)) :
    Sound hash (registered root commitments) calls (session hash root commitments calls) :=
  sound_foldl (fun _ hc => hc) ⟨rfl,rfl,by simp,by simp,by simp,by simp⟩

/-- Of two well-formed proofs with different nullifiers, presented one after the other to a
new verifier, both are accepted. -/
theorem session_pair {commitments : List Digest} {q : ZkProof}
    (hp : WellFormed hash (registered root commitments) p)
    (hq : WellFormed hash (registered root commitments) q) (hne : p.nullifier≠q.nullifier) :
    (session hash root commitments [(p, 0),(q, 0)]).accepted=[p,q] := by
  have hfresh : p.nullifier∉(registered root commitments).usedNullifiers := by
    rw [registered_fresh]
    exact Finset.notMem_empty _
  have hfirst := next_accepts (s := ⟨registered root commitments,[]⟩) hp hfresh 0
  have hfresh' : q.nullifier∉insert p.nullifier (registered root commitments).usedNullifiers := by
    rw [registered_fresh,Finset.mem_insert]
    rintro (heq | hmem)
    · exact hne heq.symm
    · exact Finset.notMem_empty _ hmem
  rw [session,foldl_cons,foldl_cons,foldl_nil,hfirst,
    next_accepts ⟨hq.root,hq.commitment,hq.response⟩ hfresh']
  rfl

/-- Nothing but hashing goes into a well-formed proof for a registered commitment. -/
theorem assemble_wellFormed {c : Digest} {commitments : List Digest} (h : c∈commitments)
    (nullifier : Digest) :
    WellFormed hash (registered root commitments) (assemble hash c nullifier root) :=
  ⟨(registered_root root commitments).symm,mem_registered h,rfl⟩

theorem createProof_wellFormed {commitments : List Digest} {token : List UInt8}
    {blinding : Digest} (h : Commitment.fromToken hash token blinding∈commitments) :
    WellFormed hash (registered root commitments) (createProof hash token blinding root) :=
  assemble_wellFormed h _

/-- Whatever is presented out of a set of proofs, each commitment is used at most once or a
hash collision is presented, exactly when the well-formed proofs of the set bind the
nullifier to the commitment, up to collisions. -/
theorem one_acceptance_iff (hash : List UInt8 → Digest) (root : Digest) (commitments : List Digest)
    (available : ZkProof → Prop) :
    (∀ calls : List (ZkProof × Int), (∀ call∈calls, available call.1) →
      ((session hash root commitments calls).accepted.map ZkProof.commitment).Nodup ∨
        Collides hash (calls.map fun call => call.1.message)) ↔
    ∀ p q, available p → available q → WellFormed hash (registered root commitments) p →
      WellFormed hash (registered root commitments) q → p.commitment=q.commitment →
      p.nullifier=q.nullifier ∨ hash p.message=hash q.message := by
  constructor
  · intro h p q hp hq hpwf hqwf hsame
    by_cases hne : p.nullifier=q.nullifier
    · exact Or.inl hne
    · right
      have hcalls : ∀ call∈[(p, (0 : Int)),(q, 0)], available call.1 := by
        simp [hp,hq]
      rcases h _ hcalls with hnodup | ⟨x,hx,y,hy,hxy,heq⟩
      · rw [session_pair hpwf hqwf hne] at hnodup
        simp [hsame] at hnodup
      · -- the only two messages are those of p and q
        simp only [map_cons,map_nil,mem_cons,not_mem_nil,or_false] at hx hy
        rcases hx with rfl | rfl
        · rcases hy with rfl | rfl
          · exact absurd rfl hxy
          · exact heq
        · rcases hy with rfl | rfl
          · exact heq.symm
          · exact absurd rfl hxy
  · intro h calls hcalls
    have hsound := sound_session hash root commitments calls
    by_cases hcollides : Collides hash (calls.map fun call => call.1.message)
    · exact Or.inr hcollides
    · left
      have hnullifiers := pairwise_map.mp hsound.nullifiers
      refine pairwise_map.mpr (hnullifiers.imp_of_mem fun {p q} hp hq hne hsame => ?_)
      obtain ⟨now,hpcall⟩ := hsound.presented p hp
      obtain ⟨now',hqcall⟩ := hsound.presented q hq
      rcases h p q (hcalls _ hpcall) (hcalls _ hqcall) (hsound.wellFormed p hp)
        (hsound.wellFormed q hq) hsame with heq | heq
      · exact hne heq
      · exact hcollides ⟨p.message,mem_map.mpr ⟨_,hpcall,rfl⟩,q.message,
          mem_map.mpr ⟨_,hqcall,rfl⟩,message_ne hne,heq⟩

def honest : ZkProof := createProof sha256 (ascii "token-1") .zero .zero

theorem one_acceptance_iff_replay :
    ((session sha256 .zero [honest.commitment] [(honest, 0),(honest, 1)]).accepted.map
      ZkProof.commitment).Nodup := by
  have h := (one_acceptance_iff sha256 .zero [honest.commitment] (· = honest)).mpr
    (fun p q hp hq _ _ _ => Or.inl (by rw [hp,hq])) [(honest, 0),(honest, 1)] (by simp)
  refine h.resolve_right ?_
  rintro ⟨x,hx,y,hy,hne,_⟩
  simp only [map_cons,map_nil,mem_cons,not_mem_nil,or_false,or_self]
    at hx hy
  exact hne (hx.trans hy.symm)

/-- Someone who has seen an accepted proof makes a second one for its commitment. -/
theorem second_proof_accepted :
    ¬ ∀ (root : Digest) (commitments : List Digest) (calls : List (ZkProof × Int)),
      ((session sha256 root commitments calls).accepted.map ZkProof.commitment).Nodup ∨
        Collides sha256 (calls.map fun call => call.1.message) := by
  intro h
  have hne : honest.nullifier≠Digest.zero := by decide +kernel
  have hhonest : WellFormed sha256 (registered .zero [honest.commitment]) honest :=
    createProof_wellFormed mem_cons_self
  have hforged : WellFormed sha256 (registered .zero [honest.commitment])
      (assemble sha256 honest.commitment .zero .zero) :=
    assemble_wellFormed mem_cons_self .zero
  rcases h .zero [honest.commitment]
    [(honest, 0),(assemble sha256 honest.commitment .zero .zero, 0)] with hnodup | hcollides
  · rw [session_pair hhonest hforged hne] at hnodup
    exact (nodup_cons.mp hnodup).1 mem_cons_self
  · exact not_collides_of_nodup (by decide +kernel) hcollides

theorem used_foldl (hash : List UInt8 → Digest) (calls : List (ZkProof × Int)) (s : Session)
    (h : ∀ n, n∈s.verifier.usedNullifiers ↔ n∈s.accepted.map ZkProof.nullifier) (n : Digest) :
    n∈(calls.foldl (Session.next hash) s).verifier.usedNullifiers ↔
      n∈(calls.foldl (Session.next hash) s).accepted.map ZkProof.nullifier := by
  induction calls generalizing s with
  | nil => exact h n
  | cons call calls ih =>
    refine ih _ fun n => ?_
    rcases verifyProof_cases hash s.verifier call.1 call.2 with hcase | ⟨e,he⟩
    · rw [next_accepts hcase.1 hcase.2,Finset.mem_insert,h,map_append,mem_append,map_singleton,
        mem_singleton,or_comm]
    · rw [Session.next,he]
      exact h n

/-- Whatever was presented before, a proof is accepted exactly if it is well formed for the registered
commitments and no proof that was accepted before carried its nullifier. -/
theorem accepted_iff_fresh (hash : List UInt8 → Digest) (root : Digest) (commitments : List Digest)
    (calls : List (ZkProof × Int)) (p : ZkProof) (now : Int) :
    let s := session hash root commitments calls
    (∃ result, (s.verifier.verifyProof hash p now).2 = .ok result) ↔
      WellFormed hash (registered root commitments) p ∧ p.nullifier∉s.accepted.map ZkProof.nullifier := by
  intro s
  have hsound := sound_session hash root commitments calls
  have hused : p.nullifier∈s.verifier.usedNullifiers ↔ p.nullifier∈s.accepted.map ZkProof.nullifier :=
    used_foldl hash calls _ (by simp [registered_fresh]) p.nullifier
  constructor
  · rintro ⟨result,hok⟩
    rcases verifyProof_cases hash s.verifier p now with ⟨h,hfresh⟩ | ⟨e,he⟩
    · exact ⟨⟨h.root.trans hsound.root,hsound.commitments ▸ h.commitment,h.response⟩,mt hused.mpr hfresh⟩
    · rw [he] at hok
      cases hok
  · rintro ⟨h,hfresh⟩
    have hnow : WellFormed hash s.verifier p :=
      ⟨h.root.trans hsound.root.symm,hsound.commitments.symm ▸ h.commitment,h.response⟩
    exact ⟨_,congrArg Prod.snd (verifyProof_accepts hnow (mt hused.mp hfresh) now)⟩

end AetherX.Zkp
