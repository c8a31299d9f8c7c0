import Mathlib.LinearAlgebra.Lagrange

/-! Square linear systems over an arbitrary field: Gauss-Jordan inversion with a
pivot search, and the systems made of unit rows and Cauchy rows, which it always
solves. -/
namespace AetherX.LinearSystem
open Matrix
variable {F : Type*} [Field F] {n : Nat}

section
abbrev Square (n : Nat) (F : Type*) := Matrix (Fin n) (Fin n) F

/- The matrix being reduced and the one that collects the row operations. -/
structure Work (n : Nat) (F : Type*) where
  a : Square n F
  inv : Square n F

def swapRows (i j : Fin n) (x : Square n F) : Square n F := fun r => x (Equiv.swap i j r)

def scaleRow (i : Fin n) (p : F) (x : Square n F) : Square n F :=
  fun r c => if r=i then x r c*p else x r c

variable [DecidableEq F]

/- Take from every row but col its factor times row col; a zero factor is skipped. -/
def clearRows (col : Fin n) (factor : Fin n → F) (x : Square n F) : Square n F :=
  fun r c => if r=col ∨ factor r=0 then x r c else x r c-factor r*x col c

def findPivot (a : Square n F) (col : Fin n) : Option (Fin n) :=
  (List.finRange n).find? fun r => col ≤ r ∧ a r col≠0

/- One column: bring the pivot up, make it one, clear the column elsewhere. -/
def reduceColumn (w : Work n F) (col : Fin n) : Option (Work n F) :=
  (findPivot w.a col).map fun pivot =>
    let a := swapRows col pivot w.a
    let inv := swapRows col pivot w.inv
    let p := (a col col)⁻¹
    let a := scaleRow col p a
    let inv := scaleRow col p inv
    let factor := fun r => a r col
    ⟨clearRows col factor a,clearRows col factor inv⟩

def invert (a : Square n F) : Option (Square n F) :=
  ((List.finRange n).foldlM reduceColumn ⟨a,1⟩).map Work.inv

/- A row operation acts on the image of every vector, and is undone on zero. -/
structure RowOp (op : Square n F → Square n F) (act : (Fin n → F) → Fin n → F) : Prop where
  mulVec : ∀ x v, op x *ᵥ v=act (x *ᵥ v)
  zero : ∀ w, act w=0 → w=0

variable {act : (Fin n → F) → Fin n → F} {op : Square n F → Square n F}

omit [DecidableEq F] in
theorem RowOp.comp {op' : Square n F → Square n F} {act' : (Fin n → F) → Fin n → F}
    (h : RowOp op act) (h' : RowOp op' act') : RowOp (op' ∘ op) (act' ∘ act) where
  mulVec x v := by
    rw [Function.comp_apply,h'.mulVec,h.mulVec]
    rfl
  zero w hw := h.zero w (h'.zero _ hw)

omit [DecidableEq F] in
theorem rowOp_swapRows (i j : Fin n) :
    RowOp (F := F) (swapRows i j) fun w r => w (Equiv.swap i j r) where
  mulVec x v := rfl
  zero w hw := by
    funext r
    simpa using congrFun hw (Equiv.swap i j r)

omit [DecidableEq F] in
theorem rowOp_scaleRow (i : Fin n) {p : F} (hp : p≠0) :
    RowOp (scaleRow i p) fun w r => if r=i then w r*p else w r where
  mulVec x v := by
    funext r
    by_cases hr : r=i
    · simp only [Matrix.mulVec,dotProduct,scaleRow,hr,if_true,Finset.sum_mul]
      exact Finset.sum_congr rfl fun c _ => mul_right_comm _ _ _
    · simp [Matrix.mulVec,dotProduct,scaleRow,hr]
  zero w hw := by
    funext r
    have hr := congrFun hw r
    by_cases h : r=i
    · simpa [h,hp] using hr
    · simpa [h] using hr

theorem rowOp_clearRows (col : Fin n) (factor : Fin n → F) :
    RowOp (clearRows col factor) fun w r =>
      if r=col ∨ factor r=0 then w r else w r-factor r*w col where
  mulVec x v := by
    funext r
    by_cases hr : r=col ∨ factor r=0
    · simp [Matrix.mulVec,dotProduct,clearRows,hr]
    · simp only [Matrix.mulVec,dotProduct,clearRows,hr,if_false,sub_mul,
        Finset.sum_sub_distrib,Finset.mul_sum,mul_assoc]
  zero w hw := by
    have hcol : w col=0 := by simpa using congrFun hw col
    funext r
    have hr := congrFun hw r
    simp only [hcol,mul_zero,sub_zero,ite_self] at hr
    exact hr

def Solved (k : Nat) (a : Square n F) : Prop :=
  ∀ r c : Fin n, c < k → a r c=if r=c then 1 else 0

structure Reduced (a₀ : Square n F) (k : Nat) (w : Work n F) : Prop where
  collects : ∀ v, w.inv *ᵥ (a₀ *ᵥ v)=w.a *ᵥ v
  kernel : ∀ v, w.a *ᵥ v=0 → a₀ *ᵥ v=0
  solved : Solved k w.a

variable {a₀ a : Square n F} {col : Fin n}

omit [DecidableEq F] in
theorem Reduced.row_op {k k' : Nat} {w : Work n F} (h : Reduced a₀ k w) (hop : RowOp op act)
    (hs : Solved k' (op w.a)) : Reduced a₀ k' ⟨op w.a,op w.inv⟩ where
  collects v := by rw [hop.mulVec,hop.mulVec,h.collects]
  kernel v hv := by
    rw [hop.mulVec] at hv
    exact h.kernel v (hop.zero _ hv)
  solved := hs

/- Were the rest of a column zero, the solved columns would combine to it. -/
theorem exists_pivot (hk : ∀ v, a *ᵥ v=0 → v=0) (hs : Solved col a) : ∃ pivot, findPivot a col=some pivot := by
  cases hf : findPivot a col with
  | some pivot => exact ⟨pivot,rfl⟩
  | none =>
    have hzero : ∀ r, col ≤ r → a r col=0 := by
      intro r hr
      by_contra hne
      have := List.find?_eq_none.mp hf r (List.mem_finRange r)
      simp [hr,hne] at this
    let v : Fin n → F := fun c => if c=col then 1 else if c < col then-a c col else 0
    have hv : a *ᵥ v=0 := by
      funext r
      have hsum : ∀ c, a r c*v c =
          (if c=col then a r col else 0)+if c=r then (if r < col then-a r col else 0) else 0 := by
        intro c
        by_cases hc : c=col
        · subst hc
          by_cases hr : c=r
          · subst hr
            simp [v]
          · simp [v,hr]
        · by_cases hlt : c < col
          · by_cases hr : c=r
            · subst hr
              simp [v,hc,hlt,hs c c hlt]
            · simp [v,hc,hlt,hs r c hlt,hr,Ne.symm hr]
          · by_cases hr : c=r
            · subst hr
              simp [v,hc,hlt]
            · simp [v,hc,hlt,hr]
      simp only [Matrix.mulVec,dotProduct,hsum,Finset.sum_add_distrib,Finset.sum_ite_eq',
        Finset.mem_univ,if_true,Pi.zero_apply]
      by_cases hr : r < col
      · simp [hr]
      · simp [hr,hzero r (not_lt.mp hr)]
    have hone := congrFun (hk v hv) col
    simp [v] at hone

omit [DecidableEq F] in
theorem Solved.swapRows {k : Nat} (h : Solved k a) {i j : Fin n} (hi : k ≤ i) (hj : k ≤ j) : Solved k (swapRows i j a) := by
  intro r c hc
  have hci : c≠i := by omega
  have hcj : c≠j := by omega
  rw [LinearSystem.swapRows,h _ c hc]
  by_cases hr : r=c
  · rw [hr,Equiv.swap_apply_of_ne_of_ne hci hcj]
  · rw [if_neg hr,if_neg]
    intro he
    rw [Equiv.swap_apply_eq_iff,Equiv.swap_apply_of_ne_of_ne hci hcj] at he
    exact hr he

omit [DecidableEq F] in
theorem Solved.scaleRow (h : Solved col a) (p : F) : Solved col (scaleRow col p a) := by
  intro r c hc
  rw [LinearSystem.scaleRow,h r c hc]
  by_cases hr : r=col
  · have hrc : r≠c := by omega
    simp [hrc]
  · rw [if_neg hr]

theorem Solved.clearRows (h : Solved col a) (hone : a col col=1) : Solved (col+1) (clearRows col (fun r => a r col) a) := by
  intro r c hc
  rw [LinearSystem.clearRows]
  by_cases hcol : c=col
  · subst hcol
    by_cases hr : r=c
    · simp [hr,hone]
    · by_cases hz : a r c=0
      · simp [hr,hz]
      · simp [hr,hz,hone]
  · have hlt : c<(col : Nat) := by omega
    have hne : col≠c := by omega
    simp [h r c hlt,h col c hlt,hne]

/- What is divided by is the pivot. -/
theorem pivot_ne_zero {pivot : Fin n} (h : findPivot a col=some pivot) : col ≤ pivot ∧ swapRows col pivot a col col≠0 := by
  have hp := List.find?_some h
  rw [decide_eq_true_eq] at hp
  rwa [swapRows,Equiv.swap_apply_left]

theorem Reduced.reduceColumn {w w' : Work n F} (h : Reduced a₀ col w) (hw : reduceColumn w col=some w') :
    Reduced a₀ (col+1) w' := by
  obtain ⟨pivot,hf,rfl⟩ := Option.map_eq_some_iff.mp hw
  obtain ⟨hle,hpivot⟩ := pivot_ne_zero hf
  have hswap := h.solved.swapRows (le_refl _) (Fin.le_def.mp hle)
  have hscale := hswap.scaleRow (swapRows col pivot w.a col col)⁻¹
  have hone : scaleRow col (swapRows col pivot w.a col col)⁻¹ (swapRows col pivot w.a) col col=1 := by
    rw [scaleRow,if_pos rfl,mul_inv_cancel₀ hpivot]
  have hop := ((rowOp_swapRows col pivot).comp (rowOp_scaleRow col (inv_ne_zero hpivot))).comp
    (rowOp_clearRows col fun r => scaleRow col (swapRows col pivot w.a col col)⁻¹
      (swapRows col pivot w.a) r col)
  exact h.row_op hop (hscale.clearRows hone)

/-- The loop over the columns succeeds on every matrix without kernel, and where it succeeds it has
solved all of them. -/
theorem foldlM_reduceColumn (cols : List (Fin n)) (k : Nat)
    (hcols : cols.map Fin.val=List.range' k (n-k)) (w : Work n F) (h : Reduced a₀ k w) :
    (∀ w', cols.foldlM reduceColumn w=some w' → Reduced a₀ n w') ∧
      ((∀ v, a₀ *ᵥ v=0 → v=0) → ∃ w', cols.foldlM reduceColumn w=some w') := by
  induction cols generalizing k w with
  | nil =>
    have hn : n ≤ k := by
      have := congrArg List.length hcols
      simp at this
      omega
    refine ⟨?_,fun _ => ⟨w,rfl⟩⟩
    rintro _ ⟨⟩
    exact ⟨h.collects,h.kernel,fun r c _ => h.solved r c (by omega)⟩
  | cons col cols ih =>
    obtain ⟨d,hd⟩ : ∃ d, n-k=d+1 := by
      have := congrArg List.length hcols
      simp at this
      exact ⟨cols.length,by omega⟩
    rw [hd,List.range'_succ,List.map_cons,List.cons.injEq] at hcols
    obtain ⟨hcol,hrest⟩ := hcols
    subst hcol
    have hcols' : cols.map Fin.val=List.range' (col+1) (n-(col+1)) := by
      rw [hrest]
      congr 1
      omega
    rw [List.foldlM_cons]
    cases hw : LinearSystem.reduceColumn w col with
    | none =>
      refine ⟨nofun,fun hk => ?_⟩
      obtain ⟨pivot,hf⟩ := exists_pivot (fun v hv => hk v (h.kernel v hv)) h.solved
      rw [LinearSystem.reduceColumn,hf] at hw
      cases hw
    | some w' => exact ih (col+1) hcols' w' (h.reduceColumn hw)

theorem foldlM_start (a : Square n F) :
    (∀ w, (List.finRange n).foldlM reduceColumn (⟨a,1⟩ : Work n F)=some w → Reduced a n w) ∧
      ((∀ v, a *ᵥ v=0 → v=0) → ∃ w, (List.finRange n).foldlM reduceColumn (⟨a,1⟩ : Work n F)=some w) :=
  foldlM_reduceColumn (List.finRange n) 0 (by simp [List.range_eq_range']) _
    ⟨fun _ => one_mulVec _,fun _ => id,fun _ _ hc => absurd hc (Nat.not_lt_zero _)⟩

/-- What is returned undoes the matrix. -/
theorem invert_eq_some {b : Square n F} (h : invert a=some b) (v : Fin n → F) : b *ᵥ (a *ᵥ v)=v := by
  obtain ⟨w,hw,rfl⟩ := Option.map_eq_some_iff.mp h
  have hr := (foldlM_start a).1 w hw
  have hone : w.a=1 := by
    funext r c
    rw [hr.solved r c c.isLt,Matrix.one_apply]
  rw [hr.collects,hone,one_mulVec]

/-- A matrix without kernel is inverted, and the result undoes it. -/
theorem invert_spec (a : Square n F) (hk : ∀ v, a *ᵥ v=0 → v=0) :
    ∃ b, invert a=some b ∧ ∀ v, b *ᵥ (a *ᵥ v)=v := by
  obtain ⟨w,hw⟩ := (foldlM_start a).2 hk
  have hinvert : invert a=some w.inv := by
    rw [invert,hw]
    rfl
  exact ⟨w.inv,hinvert,invert_eq_some hinvert⟩
end

section
variable {ι κ : Type*}

/- Cauchy rows at least as many as the unknowns leave only the zero vector: the
   unknowns are the values of a polynomial of low degree that the rows send to zero. -/
theorem cauchy_kernel [DecidableEq κ] {rows : Finset ι} {cols : Finset κ} {x : ι → F} {y : κ → F}
    (hx : Set.InjOn x rows) (hy : Set.InjOn y cols) (hxy : ∀ p∈rows, ∀ i∈cols, x p≠y i)
    (hcard : cols.card ≤ rows.card) {v : κ → F}
    (hv : ∀ p∈rows, ∑ i∈cols, (x p-y i)⁻¹*v i=0) : ∀ i∈cols, v i=0 := by
  let r : κ → F := fun i => v i/Lagrange.nodalWeight cols y i
  have hroot : ∀ p∈rows, (Lagrange.interpolate cols y r).eval (x p)=0 := by
    intro p hp
    rw [Lagrange.eval_interpolate_not_at_node r (hxy p hp)]
    have hsum : ∑ i∈cols, Lagrange.nodalWeight cols y i*(x p-y i)⁻¹*r i =
        ∑ i∈cols, (x p-y i)⁻¹*v i := by
      apply Finset.sum_congr rfl
      intro i hi
      have hw := Lagrange.nodalWeight_ne_zero hy hi
      simp only [r]
      field_simp
    rw [hsum,hv p hp,mul_zero]
  have hdeg : (Lagrange.interpolate cols y r).degree < rows.card :=
    (Lagrange.degree_interpolate_lt r hy).trans_le (by exact_mod_cast hcard)
  have hpoly := Polynomial.eq_zero_of_degree_lt_of_eval_index_eq_zero rows hx hdeg hroot
  intro i hi
  have hr := Lagrange.eval_interpolate_at_node r hy hi
  rw [hpoly,Polynomial.eval_zero] at hr
  have hw := Lagrange.nodalWeight_ne_zero hy hi
  exact (div_eq_zero_iff.mp hr.symm).resolve_right hw
end
end AetherX.LinearSystem
