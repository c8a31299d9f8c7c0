import Mathlib.Algebra.Group.Nat.Defs
import Mathlib.Data.List.Nodup

/-! Binary hash trees over an arbitrary domain-separated hash. An opening keeps
only part of a tree; whoever recomputes its root either holds that part of the
tree or has hashed two different messages to one digest. No injectivity of the
hash is assumed anywhere. -/
namespace AetherX.HashTree
open List
variable {D M H : Type*}

/- Two different messages of one explicit list share a digest. The list is always
   the messages that some computation really hashes. -/
def Collides (hash : M → H) (msgs : List M) : Prop :=
  ∃ x∈msgs, ∃ y∈msgs, x≠y ∧ hash x=hash y

instance [DecidableEq M] [DecidableEq H] (hash : M → H) (msgs : List M) :
    Decidable (Collides hash msgs) :=
  inferInstanceAs (Decidable (∃ x∈msgs, ∃ y∈msgs, x≠y ∧ hash x=hash y))

theorem Collides.mono {hash : M → H} {xs ys : List M} (h : Collides hash xs)
    (hs : xs ⊆ ys) : Collides hash ys := by
  obtain ⟨x,hx,y,hy,hne,he⟩ := h
  exact ⟨x,hs hx,y,hs hy,hne,he⟩

theorem not_collides_of_nodup {hash : M → H} {xs : List M} (h : (xs.map hash).Nodup) :
    ¬ Collides hash xs := by
  rintro ⟨x,hx,y,hy,hne,he⟩
  exact hne (inj_on_of_nodup_map h hx hy he)

/- What is hashed at a leaf and at a parent. Both encodings are injective and
   never meet, so a digest has one reading unless the hash collides. -/
structure Scheme (D M H : Type*) where
  hash : M → H
  leafMsg : D → M
  nodeMsg : H → H → M
  leafMsg_inj : ∀ {d d'}, leafMsg d=leafMsg d' → d=d'
  nodeMsg_inj : ∀ {l r l' r'}, nodeMsg l r=nodeMsg l' r' → l=l' ∧ r=r'
  separated : ∀ d l r, leafMsg d≠nodeMsg l r

inductive LeafTree (D : Type*) where
  | leaf (d : D)
  | node (l r : LeafTree D)
  deriving DecidableEq

namespace LeafTree
def root (S : Scheme D M H) : LeafTree D → H
  | leaf d => S.hash (S.leafMsg d)
  | node l r => S.hash (S.nodeMsg (l.root S) (r.root S))

def messages (S : Scheme D M H) : LeafTree D → List M
  | leaf d => [S.leafMsg d]
  | node l r => S.nodeMsg (l.root S) (r.root S)::(l.messages S++r.messages S)

def leaves : LeafTree D → List D
  | leaf d => [d]
  | node l r => l.leaves++r.leaves

def Perfect : Nat → LeafTree D → Prop
  | 0, leaf _ => True
  | h+1, node l r => Perfect h l ∧ Perfect h r
  | _, _ => False

theorem root_hashed (S : Scheme D M H) (t : LeafTree D) :
    ∃ x∈t.messages S, S.hash x=t.root S := by
  cases t with
  | leaf d => exact ⟨_,mem_singleton_self _,rfl⟩
  | node l r => exact ⟨_,mem_cons_self,rfl⟩

theorem length_leaves {h : Nat} {t : LeafTree D} (hp : Perfect h t) : t.leaves.length=2^h := by
  induction h generalizing t with
  | zero => cases t <;> simp_all [Perfect,leaves]
  | succ h ih =>
    cases t with
    | leaf d => exact hp.elim
    | node l r => simp [leaves,ih hp.1,ih hp.2,Nat.pow_succ]; omega

theorem leaves_ne_nil (t : LeafTree D) : t.leaves≠[] := by
  induction t with
  | leaf d => simp [leaves]
  | node l r ihl _ => simp [leaves,ihl]

theorem Perfect.eq_of_leaves {h : Nat} {t u : LeafTree D} (ht : Perfect h t) (hu : Perfect h u)
    (he : t.leaves=u.leaves) : t=u := by
  induction h generalizing t u with
  | zero => cases t <;> cases u <;> simp_all [Perfect,leaves]
  | succ h ih =>
    cases t with
    | leaf d => exact ht.elim
    | node l r =>
      cases u with
      | leaf d => exact hu.elim
      | node l' r' =>
        have hlen : l.leaves.length=l'.leaves.length := by
          rw [length_leaves ht.1,length_leaves hu.1]
        obtain ⟨hl,hr⟩ := append_inj he hlen
        rw [ih ht.1 hu.1 hl,ih ht.2 hu.2 hr]

end LeafTree

/- The part of a tree that a proof reveals: whole leaves, bare digests in place of
   hidden subtrees, and the parents above them. -/
inductive Opening (D H : Type*) where
  | leaf (d : D)
  | known (h : H)
  | fork (l r : Opening D H)

namespace Opening
def root (S : Scheme D M H) : Opening D H → H
  | leaf d => S.hash (S.leafMsg d)
  | known h => h
  | fork l r => S.hash (S.nodeMsg (l.root S) (r.root S))

def messages (S : Scheme D M H) : Opening D H → List M
  | leaf d => [S.leafMsg d]
  | known _ => []
  | fork l r => S.nodeMsg (l.root S) (r.root S)::(l.messages S++r.messages S)

def Matches (S : Scheme D M H) : Opening D H → LeafTree D → Prop
  | leaf d, t => t = .leaf d
  | known h, t => t.root S=h
  | fork l r, .node t u => l.Matches S t ∧ r.Matches S u
  | fork _ _, .leaf _ => False

theorem Matches.root_eq {S : Scheme D M H} {o : Opening D H} {t : LeafTree D}
    (h : o.Matches S t) : o.root S=t.root S := by
  induction o generalizing t with
  | leaf d => rw [show t = .leaf d from h]; rfl
  | known e => exact h.symm
  | fork l r ihl ihr =>
    cases t with
    | leaf d => exact h.elim
    | node t u => simp only [root,LeafTree.root,ihl h.1,ihr h.2]

theorem Matches.messages_subset {S : Scheme D M H} {o : Opening D H} {t : LeafTree D}
    (h : o.Matches S t) : o.messages S ⊆ t.messages S := by
  induction o generalizing t with
  | leaf d => rw [show t = .leaf d from h]; simp [messages,LeafTree.messages]
  | known e => simp [messages]
  | fork l r ihl ihr =>
    cases t with
    | leaf d => exact h.elim
    | node t u =>
      simp only [messages,LeafTree.messages,h.1.root_eq,h.2.root_eq]
      apply cons_subset_cons
      apply append_subset.mpr
      exact ⟨List.Subset.trans (ihl h.1) (subset_append_left _ _),
        List.Subset.trans (ihr h.2) (subset_append_right _ _)⟩

/-- An opening that reaches the root of a tree is part of that tree, unless two of
the messages hashed on either side collide. -/
theorem matches_or_collides (S : Scheme D M H) (o : Opening D H) (t : LeafTree D)
    (h : o.root S=t.root S) :
    o.Matches S t ∨ Collides S.hash (o.messages S++t.messages S) := by
  classical
  induction o generalizing t with
  | leaf d =>
    cases t with
    | leaf e =>
      by_cases hm : S.leafMsg d=S.leafMsg e
      · exact .inl (by rw [S.leafMsg_inj hm]; rfl)
      · exact .inr ⟨_,by simp [messages],_,by simp [LeafTree.messages],hm,h⟩
    | node t u =>
      exact .inr ⟨_,by simp [messages],_,by simp [LeafTree.messages],S.separated _ _ _,h⟩
  | known e => exact .inl h.symm
  | fork l r ihl ihr =>
    cases t with
    | leaf e =>
      exact .inr ⟨_,by simp [messages],_,by simp [LeafTree.messages],
        (S.separated _ _ _).symm,h⟩
    | node t u =>
      by_cases hm : S.nodeMsg (l.root S) (r.root S)=S.nodeMsg (t.root S) (u.root S)
      · obtain ⟨hl,hr⟩ := S.nodeMsg_inj hm
        rcases ihl t hl with hl | hl
        · rcases ihr u hr with hr | hr
          · exact .inl ⟨hl,hr⟩
          · refine .inr (hr.mono ?_)
            intro x hx
            simp only [messages,LeafTree.messages,mem_append,mem_cons] at hx ⊢
            tauto
        · refine .inr (hl.mono ?_)
          intro x hx
          simp only [messages,LeafTree.messages,mem_append,mem_cons] at hx ⊢
          tauto
      · exact .inr ⟨_,by simp [messages],_,by simp [LeafTree.messages],hm,h⟩

end Opening

def LeafTree.reveal : LeafTree D → Opening D H
  | leaf d => .leaf d
  | node l r => .fork l.reveal r.reveal

theorem LeafTree.root_reveal (S : Scheme D M H) (t : LeafTree D) :
    (t.reveal : Opening D H).root S=t.root S := by
  induction t with
  | leaf d => rfl
  | node l r ihl ihr => simp only [reveal,Opening.root,root,ihl,ihr]

theorem LeafTree.messages_reveal (S : Scheme D M H) (t : LeafTree D) :
    (t.reveal : Opening D H).messages S=t.messages S := by
  induction t with
  | leaf d => rfl
  | node l r ihl ihr => simp only [reveal,Opening.messages,messages,root_reveal,ihl,ihr]

variable {S : Scheme D M H} {t u : LeafTree D}

theorem LeafTree.eq_of_reveal_matches (h : t.reveal.Matches S u) : t=u := by
  induction t generalizing u with
  | leaf d => exact (show u = .leaf d from h).symm
  | node l r ihl ihr =>
    cases u with
    | leaf d => exact h.elim
    | node l' r' => rw [ihl h.1,ihr h.2]

/-- Equal roots come from equal trees, whatever their shapes, or expose a collision. -/
theorem LeafTree.eq_or_collides (S : Scheme D M H) (t u : LeafTree D) (h : t.root S=u.root S) :
    t=u ∨ Collides S.hash (t.messages S++u.messages S) := by
  have hr : (t.reveal : Opening D H).root S=u.root S := by rw [root_reveal,h]
  rcases Opening.matches_or_collides S t.reveal u hr with hm | hc
  · exact .inl (eq_of_reveal_matches hm)
  · exact .inr (by rwa [messages_reveal] at hc)

/- The messages at which two trees first part on the way down. -/
def LeafTree.clash [DecidableEq M] (S : Scheme D M H) : LeafTree D → LeafTree D → Option (M × M)
  | leaf d, leaf e =>
    if S.leafMsg d=S.leafMsg e then none else some (S.leafMsg d, S.leafMsg e)
  | leaf d, node l r => some (S.leafMsg d, S.nodeMsg (l.root S) (r.root S))
  | node l r, leaf d => some (S.nodeMsg (l.root S) (r.root S), S.leafMsg d)
  | node l r, node l' r' =>
    if S.nodeMsg (l.root S) (r.root S)=S.nodeMsg (l'.root S) (r'.root S) then
      (l.clash S l').or (r.clash S r')
    else some (S.nodeMsg (l.root S) (r.root S), S.nodeMsg (l'.root S) (r'.root S))

theorem LeafTree.eq_of_clash [DecidableEq M] (h : t.clash S u=none) : t=u := by
  induction t generalizing u with
  | leaf d =>
    cases u with
    | leaf e =>
      rw [clash,ite_eq_left_iff] at h
      have hm : S.leafMsg d=S.leafMsg e := by
        by_contra hne
        cases h hne
      rw [S.leafMsg_inj hm]
    | node l r => cases h
  | node l r ihl ihr =>
    cases u with
    | leaf d => cases h
    | node l' r' =>
      rw [clash] at h
      split_ifs at h with hm
      obtain ⟨hl,hr⟩ := Option.or_eq_none_iff.mp h
      rw [ihl hl,ihr hr]

/-- Where trees of one root part, two different messages have one digest. -/
theorem LeafTree.clash_collides [DecidableEq M] {x y : M} (hroot : t.root S=u.root S)
    (h : t.clash S u=some (x, y)) :
    x∈t.messages S ∧ y∈u.messages S ∧ x≠y ∧ S.hash x=S.hash y := by
  induction t generalizing u with
  | leaf d =>
    cases u with
    | leaf e =>
      rw [clash] at h
      split_ifs at h with hm
      cases h
      exact ⟨mem_singleton_self _,mem_singleton_self _,hm,hroot⟩
    | node l r =>
      cases h
      exact ⟨mem_singleton_self _,mem_cons_self,S.separated _ _ _,hroot⟩
  | node l r ihl ihr =>
    cases u with
    | leaf d =>
      cases h
      exact ⟨mem_cons_self,mem_singleton_self _,(S.separated _ _ _).symm,hroot⟩
    | node l' r' =>
      rw [clash] at h
      split_ifs at h with hm
      · obtain ⟨hl,hr⟩ := S.nodeMsg_inj hm
        rcases Option.or_eq_some_iff.mp h with hleft | ⟨-,hright⟩
        · obtain ⟨hx,hy,hne,he⟩ := ihl hl hleft
          exact ⟨mem_cons_of_mem _ (mem_append_left _ hx),
            mem_cons_of_mem _ (mem_append_left _ hy),hne,he⟩
        · obtain ⟨hx,hy,hne,he⟩ := ihr hr hright
          exact ⟨mem_cons_of_mem _ (mem_append_right _ hx),
            mem_cons_of_mem _ (mem_append_right _ hy),hne,he⟩
      · cases h
        exact ⟨mem_cons_self,mem_cons_self,hm,hroot⟩

end AetherX.HashTree
