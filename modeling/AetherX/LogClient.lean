import AetherX.Transparency

/-! The control plane's client of the transparency log, which keeps the last tree head it
trusts. It reads the same proofs as the supervisor's verifiers. -/
namespace AetherX.LogClient
open HashTree SplitTree Sha256 Merkle
open ConsistencyTies (forestInputs forestInputs_pair agree_of_roots leafHashes_prefix_iff)
open Transparency (ConsistencyProof InclusionProof MerkleLog)

structure SignedTreeHead where
  treeSize : Nat
  root : Digest
  timestamp : Nat
  signature : Bytes

inductive Sentinel where
  | inclusionFailed
  | consistencyFailed
  | rolledBack
  deriving DecidableEq

structure Failure where
  sentinel : Sentinel
  detail : String
  deriving DecidableEq

/- The nodes are counted, not read. -/
def verifyConsistency (proof : ConsistencyProof) : Except Failure Unit :=
  if proof.oldSize=0 then .ok ()
  else if proof.oldSize=proof.newSize then
    if proof.oldRoot≠proof.newRoot then
      .error ⟨.consistencyFailed, "same size but different roots"⟩
    else .ok ()
  else if proof.oldSize > proof.newSize then
    .error ⟨.rolledBack, "old size " ++ toString proof.oldSize ++ " > new size " ++
      toString proof.newSize ++ " (possible rollback)"⟩
  else if proof.nodes.length=0 ∧ proof.oldSize≠proof.newSize then
    .error ⟨.consistencyFailed, "empty proof for different sizes"⟩
  else .ok ()

structure Client where
  lastTrustedSTH : Option SignedTreeHead

namespace Client
def new : Client := ⟨none⟩

def setTrustedSTH (_ : Client) (sth : SignedTreeHead) : Client := ⟨some sth⟩

/- The proof is checked by itself: neither head is compared with it. -/
def verifyUpdate (c : Client) (newSTH : SignedTreeHead) (proof : ConsistencyProof) :
    Client × Except Failure Unit :=
  match c.lastTrustedSTH with
  | none => (⟨some newSTH⟩, .ok ())
  | some _ =>
    match verifyConsistency proof with
    | .error e => (c, .error e)
    | .ok () => (⟨some newSTH⟩, .ok ())

def run (c : Client) (updates : List (SignedTreeHead × ConsistencyProof)) : Client :=
  updates.foldl (fun c u => (c.verifyUpdate u.1 u.2).1) c

end Client

theorem verifyConsistency_ok_iff (proof : ConsistencyProof) : verifyConsistency proof = .ok () ↔
    proof.oldSize=0 ∨ (proof.oldSize=proof.newSize ∧ proof.oldRoot=proof.newRoot) ∨
      (proof.oldSize < proof.newSize ∧ proof.nodes≠[]) := by
  rw [verifyConsistency]
  split_ifs with hzero hsame hroots hback hempty
  · simp [hzero]
  · simp [← hsame,hzero,hroots]
  · simpa [hsame] using Or.inr hroots
  · simp [hzero,hsame,Nat.le_of_lt hback]
  · simp [hzero,hsame,List.length_eq_zero_iff.mp hempty.1]
  · have hnodes : proof.nodes≠[] := fun hnil => hempty ⟨by rw [hnil]; rfl,hsame⟩
    exact iff_of_true rfl (.inr (.inr ⟨by omega,hnodes⟩))

section
variable (sha256 : Bytes → Digest)

/- The root of a log as RFC 6962 has it: that of no leaves is the hash of nothing. -/
def treeHash (leaves : List Bytes) : Digest :=
  ((MerkleLog.mk leaves).forestRoot sha256).getD (sha256 [])

def logInputs (leaves : List Bytes) : List Bytes :=
  if leaves=[] then [[]] else forestInputs sha256 leaves

def HeadOf (sth : SignedTreeHead) (leaves : List Bytes) : Prop :=
  sth.treeSize=leaves.length ∧ sth.root=treeHash sha256 leaves

/-- The leaf hashes of the one log start those of the other, or hashing the two collides. -/
def Continues (A B : List Bytes) : Prop :=
  A.map (leafHash sha256) <+: B.map (leafHash sha256) ∨
    Collides sha256 (logInputs sha256 A++logInputs sha256 B)

/-- Every update that a sequence of calls accepts continues the log trusted before. -/
def Sound (initial : SignedTreeHead) (updates : List (SignedTreeHead × ConsistencyProof)) : Prop :=
  ∀ before newSTH proof after, updates=before++(newSTH, proof)::after →
    ∀ trusted A B, ((Client.new.setTrustedSTH initial).run before).lastTrustedSTH=some trusted →
      (((Client.new.setTrustedSTH initial).run before).verifyUpdate newSTH proof).2 = .ok () →
      HeadOf sha256 trusted A → HeadOf sha256 newSTH B → Continues sha256 A B
end

section
variable {sha256 : Bytes → Digest} {trusted newSTH : SignedTreeHead} {proof : ConsistencyProof}

theorem verifyUpdate_accepted_iff {c : Client} (h : c.lastTrustedSTH=some trusted) :
    (c.verifyUpdate newSTH proof).2 = .ok () ↔ verifyConsistency proof = .ok () := by
  rw [Client.verifyUpdate,h]
  cases verifyConsistency proof <;> simp

theorem run_same_head (proofs : List ConsistencyProof) :
    (Client.mk (some trusted)).run (proofs.map fun p => (trusted, p))=⟨some trusted⟩ := by
  induction proofs with
  | nil => rfl
  | cons p proofs ih =>
    have hstep : ((Client.mk (some trusted)).verifyUpdate trusted p).1=⟨some trusted⟩ := by
      rw [Client.verifyUpdate]
      cases verifyConsistency p <;> rfl
    rw [Client.run,List.map_cons,List.foldl_cons,hstep]
    exact ih

variable (sha256) in
def head (leaves : List Bytes) : SignedTreeHead :=
  ⟨leaves.length,treeHash sha256 leaves,0,[]⟩

/-- When some proof of a sequence is accepted, it can be presented for any two logs. -/
theorem continues_of_accepted {proofs : List ConsistencyProof} (hmem : proof∈proofs)
    (hok : verifyConsistency proof = .ok ())
    (hsound : ∀ initial updates, updates.map Prod.snd=proofs → Sound sha256 initial updates)
    (A B : List Bytes) : Continues sha256 A B := by
  obtain ⟨before,after,rfl⟩ := List.append_of_mem hmem
  have hproofs : (before.map (fun p => (head sha256 A, p)) ++
      (head sha256 B, proof)::after.map fun p => (head sha256 B, p)).map Prod.snd =
      before++proof::after := by
    simp [Function.comp_def]
  have htrusted : ((Client.new.setTrustedSTH (head sha256 A)).run
      (before.map fun p => (head sha256 A, p))).lastTrustedSTH=some (head sha256 A) :=
    congrArg Client.lastTrustedSTH (run_same_head before)
  exact hsound _ _ hproofs _ _ _ _ rfl _ A B htrusted
    ((verifyUpdate_accepted_iff htrusted).mpr hok) ⟨rfl,rfl⟩ ⟨rfl,rfl⟩
end

/-- Against arbitrary heads a sequence of proofs is sound exactly when none of them is accepted
(or when there is nothing to tell apart: every log continues every other). -/
theorem proofs_sound_iff (sha256 : Bytes → Digest) (proofs : List ConsistencyProof) :
    (∀ initial updates, updates.map Prod.snd=proofs → Sound sha256 initial updates) ↔
      (∀ proof∈proofs, verifyConsistency proof ≠ .ok ()) ∨
        ∀ A B : List Bytes, Continues sha256 A B := by
  constructor
  · intro hsound
    by_cases hnone : ∀ proof∈proofs, verifyConsistency proof ≠ .ok ()
    · exact .inl hnone
    · push Not at hnone
      obtain ⟨proof,hmem,hok⟩ := hnone
      exact .inr (continues_of_accepted hmem hok hsound)
  · rintro hcond initial updates rfl before newSTH proof after hsplit trusted A B htrusted hok _ _
    cases hcond with
    | inl hnone =>
      have hmem : proof∈updates.map Prod.snd := by simp [hsplit]
      exact absurd ((verifyUpdate_accepted_iff htrusted).mp hok) (hnone proof hmem)
    | inr hall => exact hall A B

section
variable {sha256 : Bytes → Digest} {trusted newSTH : SignedTreeHead} {proof : ConsistencyProof}
  {A B : List Bytes}

/- The proof is about the two heads, and they are of one size or the first is of no leaves. -/
structure Tied (trusted newSTH : SignedTreeHead) (proof : ConsistencyProof) : Prop where
  oldSize : proof.oldSize=trusted.treeSize
  oldRoot : proof.oldRoot=trusted.root
  newSize : proof.newSize=newSTH.treeSize
  newRoot : proof.newRoot=newSTH.root
  grows : trusted.treeSize=0 ∨ trusted.treeSize=newSTH.treeSize

/-- Two logs of one size with one root have the same leaf hashes. -/
theorem continues_of_same_root (hlength : A.length=B.length)
    (hroot : treeHash sha256 A=treeHash sha256 B) : Continues sha256 A B := by
  by_cases hA : A=[]
  · subst hA
    exact .inl List.nil_prefix
  have hpos : 0 < A.length := List.length_pos_iff.mpr hA
  have hB : B≠[] := List.length_pos_iff.mp (hlength ▸ hpos)
  rw [treeHash,treeHash,Transparency.forestRoot_eq sha256 A hA,
    Transparency.forestRoot_eq sha256 B hB,← hlength] at hroot
  rcases agree_of_roots sha256 (r := (0, A.length)) hpos hroot with hagree | hcollides
  · exact .inl ((leafHashes_prefix_iff sha256 hlength.le).mpr hagree)
  · refine .inr ?_
    rw [logInputs,logInputs,if_neg hA,if_neg hB,forestInputs,forestInputs,← hlength]
    exact hcollides

theorem continues_of_tied {c : Client} (htrusted : c.lastTrustedSTH=some trusted)
    (htied : Tied trusted newSTH proof) (hok : (c.verifyUpdate newSTH proof).2 = .ok ())
    (hA : HeadOf sha256 trusted A) (hB : HeadOf sha256 newSTH B) : Continues sha256 A B := by
  by_cases hzero : trusted.treeSize=0
  · rw [List.length_eq_zero_iff.mp (hA.1.symm.trans hzero)]
    exact .inl List.nil_prefix
  have hsame := htied.grows.resolve_left hzero
  have haccepted := (verifyConsistency_ok_iff proof).mp ((verifyUpdate_accepted_iff htrusted).mp hok)
  rw [htied.oldSize,htied.newSize,htied.oldRoot,htied.newRoot,← hsame] at haccepted
  have hroots : trusted.root=newSTH.root := by
    rcases haccepted with h | h | h
    · exact absurd h hzero
    · exact h.2
    · exact absurd h.1 (Nat.lt_irrefl _)
  refine continues_of_same_root ?_ ?_
  · rw [← hA.1,← hB.1,hsame]
  · rw [← hA.2,← hB.2,hroots]
end

/-- Against arbitrary heads a sequence of proofs is sound exactly when none of them is accepted.
Updates are sound whose proofs are about the heads and that do not grow the log. -/
theorem updates_sound_iff (sha256 : Bytes → Digest) :
    (∀ proofs : List ConsistencyProof,
      (∀ initial updates, updates.map Prod.snd=proofs → Sound sha256 initial updates) ↔
        (∀ proof∈proofs, verifyConsistency proof ≠ .ok ()) ∨
          ∀ A B : List Bytes, Continues sha256 A B) ∧
    ∀ initial updates, (∀ before newSTH proof after, updates=before++(newSTH, proof)::after →
      ∀ trusted, ((Client.new.setTrustedSTH initial).run before).lastTrustedSTH=some trusted →
        Tied trusted newSTH proof) → Sound sha256 initial updates := by
  refine ⟨proofs_sound_iff sha256,fun initial updates htied => ?_⟩
  intro before newSTH proof after hsplit trusted A B htrusted hok hA hB
  exact continues_of_tied htrusted (htied before newSTH proof after hsplit trusted htrusted) hok hA hB

/- A log of two leaves and the log that has lost the second one. -/
theorem not_continues_rolled_back : ¬ Continues Sha256.sha256 [[1],[2]] [[1]] := by
  intro hcontinues
  cases hcontinues with
  | inl hpre => exact absurd hpre.length_le (by decide)
  | inr hc =>
    refine one_two_distinct (hc.mono fun x hx => ?_)
    have hone : forestInputs Sha256.sha256 [[1]]=[leafMessage [1]] := by
      rw [forestInputs,List.length_singleton,rangeTree_one]
      rfl
    rw [List.mem_append,logInputs,logInputs,if_neg (by decide),if_neg (by decide),hone,
      forestInputs_pair] at hx
    cases hx with
    | inl hx => exact hx
    | inr hx =>
      rw [List.mem_singleton.mp hx,treeInputs_pair]
      simp

/-- A proof that claims to start at the empty tree rolls the client back. -/
theorem rollback_accepted :
    ¬ ∀ (initial : SignedTreeHead) (updates : List (SignedTreeHead × ConsistencyProof)),
      Sound Sha256.sha256 initial updates := by
  intro hsound
  have hcontinues := hsound (head Sha256.sha256 [[1],[2]])
    [(head Sha256.sha256 [[1]], ⟨0,0,Digest.zero,Digest.zero,[]⟩)] [] _ _ [] rfl
    (head Sha256.sha256 [[1],[2]]) [[1],[2]] [[1]] rfl rfl ⟨rfl,rfl⟩ ⟨rfl,rfl⟩
  exact not_continues_rolled_back hcontinues

end AetherX.LogClient
