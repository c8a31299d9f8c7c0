import Mathlib.Data.List.Chain
import Mathlib.Data.List.Perm.Subperm

/-! Breadth-first search with a queue of paths. A vertex is marked when the first path to it is put
into the queue, and a path whose last vertex is not live is dropped. -/
namespace AetherX.Breadth
open List

structure Path (V : Type*) where
  init : List V
  last : V

variable {V : Type*}

def Path.nodes (p : Path V) : List V := p.init++[p.last]

def Path.extend (p : Path V) (w : V) : Path V := ⟨p.nodes,w⟩

@[simp] theorem Path.length_extend (p : Path V) (w : V) : (p.extend w).init.length=p.init.length+1 := by
  simp [extend,nodes]

section
variable [DecidableEq V]

def visit (p : Path V) (s : List V × List (Path V)) (w : V) : List V × List (Path V) :=
  if w∈s.1 then s else (s.1++[w], s.2++[p.extend w])

/- The first path that ends in a goal; there is no result if the queue outlasts the bound. -/
def search (live goal : V → Bool) (nexts : Path V → List V) :
    Nat → List V → List (Path V) → Option (Option (Path V))
  | _, _, [] => some none
  | 0, _, _::_ => none
  | n+1, visited, p::queue =>
    if !live p.last then search live goal nexts n visited queue
    else if goal p.last then some (some p)
    else
      let s := (nexts p).foldl (visit p) (visited, queue)
      search live goal nexts n s.1 s.2

theorem foldl_visit (p : Path V) (ws : List V) (s : List V × List (Path V)) : ∃ new : List V,
    ws.foldl (visit p) s=(s.1++new, s.2++new.map p.extend) ∧ new.Nodup ∧
      (∀ w∈new, w∈ws ∧ w∉s.1) ∧ ∀ w∈ws, w∈s.1++new := by
  induction ws generalizing s with
  | nil => exact ⟨[],by simp⟩
  | cons w ws ih =>
    obtain ⟨new,hfold,hnodup,hnew,hall⟩ := ih (visit p s w)
    rw [foldl_cons,hfold]
    by_cases hw : w∈s.1
    · rw [visit,if_pos hw] at hnew hall ⊢
      exact ⟨new,rfl,hnodup,by grind,by grind⟩
    · rw [visit,if_neg hw] at hnew hall ⊢
      exact ⟨w::new,by simp,by grind,by grind,by grind⟩
end

section
/- Where a search begins, what it looks for and what it may pass. -/
structure Quest (V : Type*) where
  start : V
  live : V → Bool
  goal : V → Bool
  adj : V → V → Prop

/- A path from the start to a goal through live vertices. -/
structure Quest.Route (Q : Quest V) (q : List V) : Prop where
  head : q.head? = some Q.start
  chain : q.IsChain Q.adj
  live : ∀ v∈q, Q.live v=true
  goal : ∃ v∈q.getLast?, Q.goal v=true

/- The paths that were put into the queue are walks from the start through live vertices, each to
   another one; the queue is in the order of length, and no path is longer by two than one in it. -/
structure Inv (Q : Quest V) (done queue : List (Path V)) : Prop where
  walks : ∀ p∈done++queue, p.nodes.head? = some Q.start ∧ p.nodes.IsChain Q.adj ∧ ∀ v∈p.init, Q.live v=true
  nodup : ((done++queue).map Path.last).Nodup
  begins : ⟨[],Q.start⟩∈done++queue
  sorted : queue.Pairwise fun p q => p.init.length ≤ q.init.length
  near : ∀ p∈queue, ∀ q∈done++queue, q.init.length ≤ p.init.length+1
  closed : ∀ p∈done, Q.live p.last=true → Q.goal p.last=false ∧ ∀ w, Q.adj p.last w →
    ∃ q∈done++queue, q.last=w ∧ q.init.length ≤ p.init.length+1

variable {Q : Quest V} {done queue : List (Path V)} {p : Path V}

theorem inv_start : Inv Q [] [⟨[],Q.start⟩] := by
  constructor <;> simp [Path.nodes]

theorem Inv.step (h : Inv Q done (p::queue)) {new : List V} (hnodup : new.Nodup)
    (hnew : ∀ w∈new, Q.adj p.last w ∧ w∉(done++p::queue).map Path.last ∧ Q.live p.last=true)
    (hclosed : Q.live p.last=true → Q.goal p.last=false ∧
      ∀ w, Q.adj p.last w → w∈(done++p::queue).map Path.last++new) :
    Inv Q (done++[p]) (queue++new.map p.extend) := by
  have hall : done++[p]++(queue++new.map p.extend)=(done++p::queue)++new.map p.extend := by simp
  have hlength := h.near p mem_cons_self
  have hsorted := pairwise_cons.mp h.sorted
  constructor
  · rw [hall,forall_mem_append,forall_mem_map]
    refine ⟨h.walks,fun w hw => ?_⟩
    obtain ⟨hadj,_,hlive⟩ := hnew w hw
    obtain ⟨hhead,hchain,hinit⟩ := h.walks p (by simp)
    refine ⟨?_,?_,?_⟩
    · rw [Path.nodes,Path.extend,head?_append,hhead]
      rfl
    · refine hchain.append (.singleton w) ?_
      simpa [Path.nodes,Path.extend] using hadj
    · rw [Path.extend,Path.nodes,forall_mem_append,forall_mem_singleton]
      exact ⟨hinit,hlive⟩
  · have hlast : (new.map p.extend).map Path.last=new := by simp [Function.comp_def,Path.extend]
    rw [hall,map_append,hlast]
    refine nodup_append.mpr ⟨h.nodup,hnodup,?_⟩
    rintro _ hv w hw rfl
    exact (hnew _ hw).2.1 hv
  · rw [hall]
    exact mem_append_left _ h.begins
  · refine pairwise_append.mpr ⟨hsorted.2,pairwise_map.mpr (pairwise_of_forall (by simp)),?_⟩
    simpa using fun q hq _ _ => hlength q (by simp [hq])
  · have hfirst : ∀ q∈queue++new.map p.extend, p.init.length ≤ q.init.length := by
      rw [forall_mem_append,forall_mem_map]
      exact ⟨hsorted.1,fun w _ => by simp⟩
    have hlast : ∀ q∈(done++p::queue)++new.map p.extend, q.init.length ≤ p.init.length+1 := by
      rw [forall_mem_append,forall_mem_map]
      exact ⟨hlength,fun w _ => by simp⟩
    rw [hall]
    exact fun q hq r hr => Nat.le_trans (hlast r hr) (Nat.succ_le_succ (hfirst q hq))
  · rw [hall,forall_mem_append,forall_mem_singleton]
    constructor
    · intro q hq hlive
      obtain ⟨hgoal,hnext⟩ := h.closed q hq hlive
      refine ⟨hgoal,fun w hw => ?_⟩
      obtain ⟨r,hr,hrest⟩ := hnext w hw
      exact ⟨r,mem_append_left _ hr,hrest⟩
    · intro hlive
      obtain ⟨hgoal,hnext⟩ := hclosed hlive
      refine ⟨hgoal,fun w hw => ?_⟩
      obtain hw | hw := mem_append.mp (hnext w hw)
      · obtain ⟨r,hr,rfl⟩ := mem_map.mp hw
        exact ⟨r,mem_append_left _ hr,rfl,hlength r hr⟩
      · exact ⟨p.extend w,mem_append_right _ (mem_map_of_mem hw),rfl,(p.length_extend w).le⟩

/-- A route runs into the queue before it gets longer than the path there, or it has been walked. -/
theorem Inv.frontier (h : Inv Q done queue) {rest : List V} (hp : p∈done++queue)
    (hchain : (p.last::rest).IsChain Q.adj) (hlive : ∀ w∈p.last::rest, Q.live w=true) :
    (∃ q∈queue, q.init.length ≤ p.init.length+rest.length) ∨
      ∃ q∈done, (p.last::rest).getLast? = some q.last := by
  induction rest generalizing p with
  | nil =>
    obtain hp | hp := mem_append.mp hp
    · exact .inr ⟨p,hp,rfl⟩
    · exact .inl ⟨p,hp,Nat.le_refl _⟩
  | cons w rest ih =>
    obtain hp | hp := mem_append.mp hp
    · rw [isChain_cons_cons] at hchain
      rw [forall_mem_cons] at hlive
      obtain ⟨q,hq,rfl,hlength⟩ := (h.closed p hp hlive.1).2 w hchain.1
      obtain ⟨r,hr,hrlength⟩ | hdone := ih hq hchain.2 hlive.2
      · exact .inl ⟨r,hr,by rw [length_cons]; omega⟩
      · rw [getLast?_cons_cons]
        exact .inr hdone
    · exact .inl ⟨p,hp,Nat.le_add_right _ _⟩

theorem Inv.route (h : Inv Q done queue) {q : List V} (hq : Q.Route q) :
    ∃ r∈queue, r.nodes.length ≤ q.length := by
  obtain ⟨rest,rfl⟩ := head?_eq_some_iff.mp hq.head
  obtain ⟨r,hr,hlength⟩ | ⟨r,hr,hlast⟩ := h.frontier h.begins hq.chain hq.live
  · exact ⟨r,hr,by simpa [Path.nodes] using hlength⟩
  · obtain ⟨v,hv,hgoal⟩ := hq.goal
    obtain rfl : r.last=v := Option.some.inj (hlast.symm.trans hv)
    rw [(h.closed r hr (hq.live _ (mem_of_getLast? hv))).1] at hgoal
    cases hgoal

theorem Inv.no_route (h : Inv Q done []) : ¬ ∃ q, Q.Route q := by
  rintro ⟨q,hq⟩
  obtain ⟨r,hr,_⟩ := h.route hq
  cases hr

variable [DecidableEq V] {nexts : Path V → List V} {U : List V}

/-- The search ends within the number of vertices, with a shortest route if there is any. -/
theorem search_spec (hnexts : ∀ p w, w∈nexts p ↔ Q.adj p.last w) (hU : ∀ v w, Q.adj v w → w∈U) {n : Nat}
    (h : Inv Q done queue) (hsub : (done++queue).map Path.last ⊆ U) (hn : U.length ≤ n+done.length) :
    (∃ p, search Q.live Q.goal nexts n ((done++queue).map Path.last) queue=some (some p) ∧ Q.Route p.nodes ∧
        ∀ q, Q.Route q → p.nodes.length ≤ q.length) ∨
      search Q.live Q.goal nexts n ((done++queue).map Path.last) queue=some none ∧ ¬ ∃ q, Q.Route q := by
  induction n generalizing done queue with
  | zero =>
    have hcount := (subperm_of_subset h.nodup hsub).length_le
    rw [length_map,length_append] at hcount
    obtain rfl : queue=[] := eq_nil_of_length_eq_zero (by omega)
    exact .inr ⟨rfl,h.no_route⟩
  | succ n ih =>
    cases queue with
    | nil => exact .inr ⟨rfl,h.no_route⟩
    | cons p queue =>
      have hn' : U.length ≤ n+(done++[p]).length := by
        rw [length_append,length_singleton]
        omega
      rw [search]
      cases hlive : Q.live p.last with
      | false =>
        have hskip : Inv Q (done++[p]) (queue++([] : List V).map p.extend) :=
          h.step .nil (by simp) (by simp [hlive])
        simpa using ih hskip (by simpa using hsub) hn'
      | true =>
        cases hgoal : Q.goal p.last with
        | true =>
          obtain ⟨hhead,hchain,hinit⟩ := h.walks p (by simp)
          have hroute : Q.Route p.nodes := by
            refine ⟨hhead,hchain,?_,p.last,by simp [Path.nodes],hgoal⟩
            rw [Path.nodes,forall_mem_append,forall_mem_singleton]
            exact ⟨hinit,hlive⟩
          refine .inl ⟨p,rfl,hroute,fun q hq => ?_⟩
          obtain ⟨r,hr,hlength⟩ := h.route hq
          refine Nat.le_trans ?_ hlength
          obtain rfl | hr := mem_cons.mp hr
          · exact Nat.le_refl _
          · simpa [Path.nodes] using (pairwise_cons.mp h.sorted).1 r hr
        | false =>
          obtain ⟨new,hfold,hnodup,hnew,hall⟩ := foldl_visit p (nexts p) ((done++p::queue).map Path.last, queue)
          have hstep := h.step hnodup
            (fun w hw => ⟨(hnexts p w).mp (hnew w hw).1,(hnew w hw).2,hlive⟩)
            fun _ => ⟨hgoal,fun w hw => hall w ((hnexts p w).mpr hw)⟩
          have hmarked : (done++[p]++(queue++new.map p.extend)).map Path.last =
              (done++p::queue).map Path.last++new := by
            simp [Function.comp_def,Path.extend]
          have hsub' : (done++p::queue).map Path.last++new ⊆ U :=
            append_subset.mpr ⟨hsub,fun w hw => hU _ _ ((hnexts p w).mp (hnew w hw).1)⟩
          rw [← hmarked] at hfold hsub'
          simp only [hfold]
          exact ih hstep hsub' hn'
end

end AetherX.Breadth
