import ConicScaling.Proofs.CostNormalisation
import ConicScaling.Proofs.Layouts

/-!
# Problem data in another order

The order of variables means nothing to the norms of lines, and neither does that of rows. A line
keeps its norm wherever it stands, so its factor goes with it, and means and largest entries do not
depend on any order. So the passes over two problems that agree up to order keep doing so.
-/
namespace ConicScaling

open Matrix

variable {m n : Nat} {columns : Equiv.Perm (Fin n)} {rows : Equiv.Perm (Fin m)}

/-! ## Vectors -/

theorem norm_comp_equiv {ι κ : Type} [Fintype ι] [Fintype κ] (σ : ι ≃ κ) (f : κ → ℝ) :
    ‖f ∘ σ‖ = ‖f‖ := by
  refine Data.eq_of_nonneg_of_forall_le_iff (norm_nonneg _) (norm_nonneg _) fun bound nonneg => ?_
  rw [pi_norm_le_iff_of_nonneg nonneg, pi_norm_le_iff_of_nonneg nonneg]
  exact σ.forall_congr_left (p := fun i => ‖f (σ i)‖ ≤ bound) |>.trans (by simp)

theorem mem_iff_exists_toVector {v : Array ℝ} (size : v.size = n) {x : ℝ} :
    x ∈ v ↔ ∃ j, toVector v n j = x := by
  subst size
  simp [Array.mem_iff_getElem, toVector, Fin.exists_iff]

section Members

variable {v w : Array ℝ} (same : ∀ x, x ∈ v ↔ x ∈ w)

include same

theorem eq_empty_or_pos_of_same : v = #[] ∧ w = #[] ∨ 0 < v.size ∧ 0 < w.size := by
  rcases Nat.eq_zero_or_pos v.size with none | some
  · obtain rfl := Array.eq_empty_of_size_eq_zero none
    exact .inl ⟨rfl, Array.eq_empty_iff_forall_not_mem.2 fun x hx => by simpa using (same x).2 hx⟩
  · have member : v[0] ∈ w := (same _).1 (Array.getElem_mem some)
    exact .inr ⟨some, Array.size_pos_of_mem member⟩

theorem largest_congr : largest v = largest w := by
  rcases eq_empty_or_pos_of_same same with ⟨rfl, rfl⟩ | ⟨left, right⟩
  · rfl
  · have greatest := isGreatest_largest right
    rw [← show {x | x ∈ v} = {x | x ∈ w} from Set.ext same] at greatest
    exact (isGreatest_largest left).unique greatest

theorem smallest_congr : smallest v = smallest w := by
  rcases eq_empty_or_pos_of_same same with ⟨rfl, rfl⟩ | ⟨left, right⟩
  · rfl
  · have least := isLeast_smallest right
    rw [← show {x | x ∈ v} = {x | x ∈ w} from Set.ext same] at least
    exact (isLeast_smallest left).unique least

/-- The spread of norms only depends on which norms there are. -/
theorem spread_congr : spread v = spread w := by
  have positive (x : ℝ) : (x ∈ v.filter fun y => 0 < y) ↔ x ∈ w.filter fun y => 0 < y := by
    simp [same]
  have empty : (v.filter fun y => 0 < y).isEmpty = (w.filter fun y => 0 < y).isEmpty := by
    rw [Bool.eq_iff_iff]
    simp [same]
  simp only [spread, empty, largest_congr positive, smallest_congr positive]

end Members

theorem spread_of_permuted {v w : Array ℝ} (left : v.size = n) (right : w.size = n)
    (moved : toVector w n = toVector v n ∘ columns) : spread w = spread v := by
  refine spread_congr fun x => ?_
  rw [mem_iff_exists_toVector left, mem_iff_exists_toVector right, moved]
  exact columns.exists_congr_left.trans (by simp)

/-! ## Problem data -/

namespace Data

/-- Whether entry `(i, j)` of one problem is entry `(rows i, columns j)` of another, and so on. -/
structure Permuted (columns : Equiv.Perm (Fin n)) (rows : Equiv.Perm (Fin m))
    (d e : Data (DataMatrix ℝ) ℝ) : Prop where
  P : e.P.storage.toMatrix n n = (d.P.storage.toMatrix n n).submatrix columns columns
  A : e.A.storage.toMatrix m n = (d.A.storage.toMatrix m n).submatrix rows columns
  q : toVector e.q n = toVector d.q n ∘ columns
  b : toVector e.b m = toVector d.b m ∘ rows

namespace Permuted

variable {d e : Data (DataMatrix ℝ) ℝ} (h : d.Permuted columns rows e)

include h

/-- Weights that move with the lines keep the order that problems are related by. -/
theorem weighted {D D' E E' : Nat → ℝ} (onColumns : ∀ j : Fin n, D' j = D (columns j))
    (onRows : ∀ i : Fin m, E' i = E (rows i)) (c : ℝ) :
    (d.weighted D E c).Permuted columns rows (e.weighted D' E' c) where
  P := by
    ext i j
    have entry : e.P.storage.value i j = d.P.storage.value (columns i) (columns j) :=
      congrFun (congrFun h.P i) j
    refine (Storage.value_weighted _ _ i j).trans ?_
    rw [entry, onColumns, onColumns]
    exact (Storage.value_weighted (fun i j => c * D i * D j) d.P.storage _ _).symm
  A := by
    ext i j
    have entry : e.A.storage.value i j = d.A.storage.value (rows i) (columns j) :=
      congrFun (congrFun h.A i) j
    refine (Storage.value_weighted _ _ i j).trans ?_
    rw [entry, onColumns, onRows]
    exact (Storage.value_weighted (fun i j => E i * D j) d.A.storage _ _).symm
  q := by
    funext j
    have entry := congrFun h.q j
    simp only [Data.weighted, toVector_weightedVector, Function.comp_apply, onColumns] at entry ⊢
    rw [entry]
  b := by
    funext i
    have entry := congrFun h.b i
    simp only [Data.weighted, toVector_weightedVector, Function.comp_apply, onRows] at entry ⊢
    rw [entry]

theorem columnNorm (j : Fin n) : e.columnNorm m n j = d.columnNorm m n (columns j) := by
  have moved : (fromRows (e.P.storage.toMatrix n n) (e.A.storage.toMatrix m n)).col j =
      (fromRows (d.P.storage.toMatrix n n) (d.A.storage.toMatrix m n)).col (columns j) ∘
        Equiv.sumCongr columns rows := by
    rw [h.P, h.A]
    funext i
    cases i <;> rfl
  rw [Data.columnNorm, moved, norm_comp_equiv, Data.columnNorm]

theorem rowNorm (i : Fin m) : e.rowNorm m n i = d.rowNorm m n (rows i) := by
  rw [Data.rowNorm, h.A]
  exact norm_comp_equiv columns ((d.A.storage.toMatrix m n).row (rows i))

theorem unpriced_iff : e.Unpriced n ↔ d.Unpriced n := by
  have linear : toVector e.q n = 0 ↔ toVector d.q n = 0 := by
    rw [← norm_eq_zero, h.q, norm_comp_equiv, norm_eq_zero]
  have quadratic : e.P.storage.toMatrix n n = 0 ↔ d.P.storage.toMatrix n n = 0 := by
    rw [h.P]
    refine ⟨fun zero => ?_, fun zero => by rw [zero]; rfl⟩
    ext i j
    simpa using congrFun (congrFun zero (columns.symm i)) (columns.symm j)
  exact or_congr quadratic linear

theorem costNorm : e.costNorm n = d.costNorm n := by
  have column (j : Fin n) : ‖(e.P.storage.toMatrix n n).col j‖ =
      ‖(d.P.storage.toMatrix n n).col (columns j)‖ := by
    rw [h.P]
    exact norm_comp_equiv columns ((d.P.storage.toMatrix n n).col (columns j))
  rw [Data.costNorm, Data.costNorm, meanColumnNorm, meanColumnNorm, h.q, norm_comp_equiv]
  simp only [column, Equiv.sum_comp columns fun j => ‖(d.P.storage.toMatrix n n).col j‖]

section Sound

variable (left : d.Sound m n) (right : e.Sound m n)

include left right

theorem costFactor? {l : Limiter ℝ} (proper : l.Proper) : e.costFactor? l = d.costFactor? l := by
  classical
  rw [costFactor?_eq left.shaped left.canonical proper,
    costFactor?_eq right.shaped right.canonical proper]
  simp only [h.unpriced_iff, h.costNorm]

theorem columnNorms : toVector e.columnNorms n = toVector d.columnNorms n ∘ columns := by
  funext j
  rw [Function.comp_apply, toVector_columnNorms left.shaped left.canonical,
    toVector_columnNorms right.shaped right.canonical, h.columnNorm]

theorem rowNorms : toVector e.rowNorms m = toVector d.rowNorms m ∘ rows := by
  funext i
  rw [Function.comp_apply, toVector_rowNorms left.shaped left.canonical,
    toVector_rowNorms right.shaped right.canonical, h.rowNorm]

theorem spread_columnNorms : spread e.columnNorms = spread d.columnNorms :=
  spread_of_permuted left.shaped.size_columnNorms right.shaped.size_columnNorms
    (h.columnNorms left right)

theorem spread_rowNorms : spread e.rowNorms = spread d.rowNorms :=
  spread_of_permuted left.shaped.size_rowNorms right.shaped.size_rowNorms (h.rowNorms left right)

end Sound

end Permuted

end Data

/-! ## Passes -/

theorem Data.Canonical.sound {d : Data (DataMatrix ℝ) ℝ} (h : d.Canonical) {s : Stage ℝ}
    (composed : s.Composed d m n) : s.data.Sound m n :=
  ⟨composed.shaped.data, h.of_composed composed⟩

theorem toVector_factors {l : Limiter ℝ} (proper : l.Proper) {norms : Array ℝ}
    (size : norms.size = n) (j : Fin n) :
    toVector (Workspace.factors l norms) n j = (√(l.limit (toVector norms n j)))⁻¹ := by
  have length : (Workspace.factors l norms).size = n := by simp [Workspace.factors, size]
  rw [toVector_eq_weight length]
  exact proper.weight_factors norms j

/-- Factors of the same lines, wherever these stand. -/
theorem toVector_factors_permuted {l : Limiter ℝ} (proper : l.Proper) {v w : Array ℝ}
    (left : v.size = n) (right : w.size = n) (moved : toVector w n = toVector v n ∘ columns) :
    toVector (Workspace.factors l w) n = toVector (Workspace.factors l v) n ∘ columns := by
  funext j
  rw [Function.comp_apply, toVector_factors proper left, toVector_factors proper right, moved,
    Function.comp_apply]

theorem toVector_times_permuted {u v u' v' : Array ℝ} (left : u.size = n ∧ v.size = n)
    (right : u'.size = n ∧ v'.size = n) (outer : toVector u' n = toVector u n ∘ columns)
    (inner : toVector v' n = toVector v n ∘ columns) :
    toVector (Diagonal.times u' v') n = toVector (Diagonal.times u v) n ∘ columns := by
  rw [toVector_times left.1 left.2, toVector_times right.1 right.2, outer, inner]
  rfl

namespace Stage

/-- Two stages that were led to from given problems by factors which agree up to the order of
lines. -/
structure Permuted (columns : Equiv.Perm (Fin n)) (rows : Equiv.Perm (Fin m))
    (d e : Data (DataMatrix ℝ) ℝ) (s t : Stage ℝ) : Prop where
  left : s.Composed d m n
  right : t.Composed e m n
  D : toVector t.D n = toVector s.D n ∘ columns
  E : toVector t.E m = toVector s.E m ∘ rows
  progress : t.progress = s.progress

variable {d e : Data (DataMatrix ℝ) ℝ}

theorem toVector_ones (n : Nat) : toVector (ones n : Array ℝ) n = 1 := by
  funext j
  simp [toVector, ones]

theorem permuted_start (left : d.Shaped m n) (right : e.Shaped m n) :
    (start d).Permuted columns rows d e (start e) where
  left := composed_start left
  right := composed_start right
  D := by
    simp only [start, left.columnsA, right.columnsA, toVector_ones]
    rfl
  E := by
    simp only [start, left.rowsA, right.rowsA, toVector_ones]
    rfl
  progress := rfl

namespace Permuted

variable {s t : Stage ℝ} (h : s.Permuted columns rows d e t) (problem : d.Permuted columns rows e)
  (left : d.Canonical) (right : e.Canonical) {l : Limiter ℝ} (proper : l.Proper)

include h problem

theorem data : s.data.Permuted columns rows t.data := by
  rw [h.left.data, h.right.data, weigh, weigh, h.progress]
  refine problem.weighted (fun j => ?_) (fun i => ?_) _
  · rw [← toVector_eq_weight h.right.shaped.sizeD, ← toVector_eq_weight h.left.shaped.sizeD, h.D]
    rfl
  · rw [← toVector_eq_weight h.right.shaped.sizeE, ← toVector_eq_weight h.left.shaped.sizeE, h.E]
    rfl

include left right proper

theorem balanced : (s.balanced l).Permuted columns rows d e (t.balanced l) where
  left := h.left.balanced proper
  right := h.right.balanced proper
  D := by
    have norms := (h.data problem).columnNorms (left.sound h.left) (right.sound h.right)
    refine toVector_times_permuted ⟨h.left.shaped.size_columnFactors l, h.left.shaped.sizeD⟩
      ⟨h.right.shaped.size_columnFactors l, h.right.shaped.sizeD⟩ ?_ h.D
    exact toVector_factors_permuted proper h.left.shaped.data.size_columnNorms
      h.right.shaped.data.size_columnNorms norms
  E := by
    have norms := (h.data problem).rowNorms (left.sound h.left) (right.sound h.right)
    refine toVector_times_permuted ⟨h.left.shaped.size_rowFactors l, h.left.shaped.sizeE⟩
      ⟨h.right.shaped.size_rowFactors l, h.right.shaped.sizeE⟩ ?_ h.E
    exact toVector_factors_permuted proper h.left.shaped.data.size_rowNorms
      h.right.shaped.data.size_rowNorms norms
  progress := h.progress

theorem recosted : (s.recosted l).Permuted columns rows d e (t.recosted l) := by
  have onLeft := h.left.recosted proper
  have onRight := h.right.recosted proper
  have same := (h.data problem).costFactor? (left.sound h.left) (right.sound h.right) proper
  unfold Stage.recosted at onLeft onRight ⊢
  rw [same] at onRight ⊢
  cases found : s.data.costFactor? l with
  | none => exact h
  | some factor =>
    simp only [found] at onLeft onRight
    exact ⟨onLeft, onRight, h.D, h.E, by simp only [h.progress]⟩

theorem pass : (s.pass l).Permuted columns rows d e (t.pass l) :=
  (h.balanced problem left right proper).recosted problem left right proper

theorem passes (k : Nat) : (s.passes l k).Permuted columns rows d e (t.passes l k) := by
  induction k generalizing s t with
  | zero => exact h
  | succ k ih => exact ih (h.pass problem left right proper)

end Permuted

end Stage

end ConicScaling
