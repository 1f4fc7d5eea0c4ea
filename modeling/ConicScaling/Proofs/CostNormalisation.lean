import ConicScaling.Proofs.Zeros

/-!
# Normalising the objective

Unless `P` or `q` is zero, every pass ends by dividing the objective by the larger of the norm of
`q` and the mean column norm of `P`, as far as the limits allow. Limiting the norm of `q` beforehand
makes no difference to that. Whether an objective is zero does not change on the way, and what
follows the passes leaves the objective alone, so the larger norm ends at one if it was within the
limits.
-/
namespace ConicScaling

open Matrix Procedure

/-! ## Limits of positive norms -/

namespace Limiter.Proper

variable {l : Limiter ℝ} (h : l.Proper) {x y : ℝ}

include h

omit h in
theorem limit_of_pos (positive : 0 < x) : l.limit x = min (max x l.low) l.high := by
  simp [limit, not_le.2 positive]

/-- A number that was limited before it is compared and limited again might as well not have
been. -/
theorem limit_max_limit (hx : 0 < x) : l.limit (max (l.limit x) y) =
    min (max (max x y) l.low) l.high := by
  rw [limit_of_pos ((h.limit_pos x).trans_le (le_max_left _ _)), limit_of_pos hx]
  calc min (max (max (min (max x l.low) l.high) y) l.low) l.high
      = min (max (min (max x l.low) l.high) (max y l.low)) l.high := by rw [max_assoc]
    _ = max (min (max x l.low) l.high) (min (max y l.low) l.high) := by
      rw [min_max_distrib_right, min_assoc, min_self]
    _ = min (max (max x y) l.low) l.high := by rw [← min_max_distrib_right, max_max_max_comm,
      max_self]

theorem costFactor_eq (hx : 0 < x) : Workspace.costFactor l x y =
    1 / min (max (max x y) l.low) l.high := by
  rw [Workspace.costFactor, Scalar.raise_real, h.limit_max_limit hx]

end Limiter.Proper

/-! ## The norm of an objective -/

section Vectors

variable {v : Array ℝ} {n : Nat} (size : v.size = n)

include size

theorem infNorm_eq_norm : infNorm v = ‖toVector v n‖ := by
  rcases Nat.eq_zero_or_pos n with rfl | some
  · have empty : ∀ x ∈ v, x = 0 := by simp [Array.eq_empty_of_size_eq_zero size]
    rw [infNorm_of_zero empty, Subsingleton.elim (toVector v 0) 0, norm_zero]
  · obtain ⟨attained, bound⟩ := isGreatest_largest (e := v.map Scalar.abs) (by simp [size, some])
    have entry (i : Fin n) : ‖toVector v n i‖ ∈ v.map Scalar.abs :=
      Array.mem_map.2 ⟨v[i], Array.getElem_mem _, by simp [toVector, size, Scalar.abs]⟩
    refine le_antisymm ?_ ?_
    · obtain ⟨x, hx, same⟩ := Array.mem_map.1 attained
      obtain ⟨i, hi, rfl⟩ := Array.mem_iff_getElem.1 hx
      have below := norm_le_pi_norm (toVector v n) ⟨i, size ▸ hi⟩
      rw [infNorm, ← same]
      simpa [toVector, hi, Scalar.abs] using below
    · have nonneg : 0 ≤ infNorm v := (norm_nonneg _).trans (bound (entry ⟨0, some⟩))
      exact (pi_norm_le_iff_of_nonneg nonneg).2 fun i => bound (entry i)

theorem mean_eq_sum : mean v = (∑ i, toVector v n i) / n := by
  subst size
  rw [mean_real, ← Fin.sum_univ_getElem]
  simp [toVector, Fin.sum_univ_def]

end Vectors

namespace Data

/-- The mean of the norms of the columns of `P`. -/
noncomputable def meanColumnNorm (d : Data (DataMatrix ℝ) ℝ) (n : Nat) : ℝ :=
  (∑ j, ‖(d.P.storage.toMatrix n n).col j‖) / n

/-- What the objective is divided by, as far as limits allow. -/
noncomputable def costNorm (d : Data (DataMatrix ℝ) ℝ) (n : Nat) : ℝ :=
  max ‖toVector d.q n‖ (d.meanColumnNorm n)

/-- Whether the objective lacks its quadratic or its linear part. -/
def Unpriced (d : Data (DataMatrix ℝ) ℝ) (n : Nat) : Prop :=
  d.P.storage.toMatrix n n = 0 ∨ toVector d.q n = 0

variable {d e : Data (DataMatrix ℝ) ℝ} {m n : Nat}

theorem meanColumnNorm_eq_zero_iff : d.meanColumnNorm n = 0 ↔ d.P.storage.toMatrix n n = 0 := by
  rcases Nat.eq_zero_or_pos n with rfl | some
  · exact iff_of_true (by simp [meanColumnNorm]) (Subsingleton.elim _ _)
  · rw [meanColumnNorm, div_eq_zero_iff, or_iff_left (by exact_mod_cast some.ne'),
      Finset.sum_eq_zero_iff_of_nonneg fun _ _ => norm_nonneg _]
    simp only [Finset.mem_univ, true_imp_iff, norm_eq_zero]
    exact ⟨fun zero => by ext i j; exact congrFun (zero j) i, fun zero j => by rw [zero]; rfl⟩

theorem toVector_objectiveNorms (shaped : d.Shaped m n) (canonical : d.Canonical) (j : Fin n) :
    toVector d.objectiveNorms n j = ‖(d.P.storage.toMatrix n n).col j‖ := by
  refine eq_of_nonneg_of_forall_le_iff (objectiveNorms_nonneg shaped canonical j)
    (norm_nonneg _) ?_
  intro bound nonneg
  have inP := shaped.wellFormedP.forall_row_iff (p := fun x => |x| ≤ bound) (by simpa using nonneg)
    shaped.rowsP j
  rw [toVector, objectiveNorms_le_iff shaped canonical, pi_norm_le_iff_of_nonneg nonneg, inP]
  simp [nonneg, Storage.toMatrix]

theorem mean_objectiveNorms (shaped : d.Shaped m n) (canonical : d.Canonical) :
    mean d.objectiveNorms = d.meanColumnNorm n := by
  rw [mean_eq_sum shaped.size_objectiveNorms, meanColumnNorm]
  simp only [toVector_objectiveNorms shaped canonical]

/-- The objective has a factor if neither part is missing: one over its limited norm. -/
theorem costFactor?_eq (shaped : d.Shaped m n) (canonical : d.Canonical) {l : Limiter ℝ}
    (proper : l.Proper) [Decidable (d.Unpriced n)] : d.costFactor? l =
      if d.Unpriced n then none else some (1 / min (max (d.costNorm n) l.low) l.high) := by
  have missing : d.Unpriced n ↔ d.meanColumnNorm n = 0 ∨ ‖toVector d.q n‖ = 0 := by
    rw [Unpriced, meanColumnNorm_eq_zero_iff, norm_eq_zero]
  simp only [costFactor?, mean_objectiveNorms shaped canonical, infNorm_eq_norm shaped.sizeq,
    Scalar.same_real, missing]
  by_cases zeroP : d.meanColumnNorm n = 0
  · simp [zeroP]
  · by_cases zeroq : ‖toVector d.q n‖ = 0
    · simp [zeroq]
    · have positive : 0 < ‖toVector d.q n‖ := lt_of_le_of_ne (norm_nonneg _) (Ne.symm zeroq)
      simp [zeroP, zeroq, proper.costFactor_eq positive, costNorm]

/-- Whether one objective is a multiple of another. -/
structure Multiplies (d e : Data (DataMatrix ℝ) ℝ) (n : Nat) (c : ℝ) : Prop where
  P : e.P.storage.toMatrix n n = c • d.P.storage.toMatrix n n
  q : toVector e.q n = c • toVector d.q n

theorem multiplies_costed (d : Data (DataMatrix ℝ) ℝ) (n : Nat) (c : ℝ) :
    d.Multiplies (d.costed c) n c where
  P := by
    ext i j
    rw [costed_real, Matrix.smul_apply, Storage.toMatrix_apply]
    refine (Storage.value_weighted _ _ _ _).trans ?_
    rw [mul_one, mul_one, mul_comm]
    rfl
  q := by
    rw [costed]
    exact toVector_map_mul c d.q n

theorem Multiplies.costNorm {c : ℝ} (h : d.Multiplies e n c) (nonneg : 0 ≤ c) :
    e.costNorm n = c * d.costNorm n := by
  have column (j : Fin n) : ‖(e.P.storage.toMatrix n n).col j‖ =
      c * ‖(d.P.storage.toMatrix n n).col j‖ := by
    rw [h.P]
    refine (norm_smul c ((d.P.storage.toMatrix n n).col j)).trans ?_
    rw [Real.norm_of_nonneg nonneg]
  have linear : ‖toVector e.q n‖ = c * ‖toVector d.q n‖ := by
    rw [h.q, norm_smul, Real.norm_of_nonneg nonneg]
  simp only [Data.costNorm, meanColumnNorm, column, linear]
  rw [← Finset.mul_sum, mul_div_assoc, mul_max_of_nonneg _ _ nonneg]

end Data

/-! ## Passes -/

namespace Stage.Composed

variable {s : Stage ℝ} {d : Data (DataMatrix ℝ) ℝ} {m n : Nat} (h : s.Composed d m n)
  (canonical : d.Canonical) {l : Limiter ℝ} (proper : l.Proper)

include h

/-- Scaling neither takes a part of the objective away nor adds one. -/
theorem unpriced_iff : s.data.Unpriced n ↔ d.Unpriced n := by
  have quadratic : s.data.P.storage.toMatrix n n = 0 ↔ d.P.storage.toMatrix n n = 0 := by
    rw [← Matrix.ext_iff, ← Matrix.ext_iff]
    refine forall₂_congr fun i j => ?_
    simp [Storage.toMatrix_apply, h.value_P, h.cost_pos.ne', (h.weightD_pos _).ne']
  have linear : toVector s.data.q n = 0 ↔ toVector d.q n = 0 := by
    rw [funext_iff, funext_iff, h.data]
    refine forall_congr' fun j => ?_
    simp [weigh, Data.weighted, toVector_weightedVector, h.cost_pos.ne', (h.weightD_pos _).ne']
  exact or_congr quadratic linear

include canonical proper

theorem costFactor?_eq [Decidable (d.Unpriced n)] : s.data.costFactor? l =
    if d.Unpriced n then none
    else some (1 / min (max (s.data.costNorm n) l.low) l.high) := by
  classical
  rw [Data.costFactor?_eq h.shaped.data (canonical.of_composed h) proper]
  simp only [h.unpriced_iff]

theorem pass_of_unpriced (unpriced : d.Unpriced n) : s.pass l = s.balanced l := by
  classical
  have factor := (h.balanced proper).costFactor?_eq canonical proper
  rw [if_pos unpriced] at factor
  rw [Stage.pass, Stage.recosted, factor]

theorem pass_of_priced (priced : ¬ d.Unpriced n) {factor : ℝ}
    (eq : factor = 1 / min (max ((s.balanced l).data.costNorm n) l.low) l.high) : s.pass l =
      { s.balanced l with
        data := (s.balanced l).data.costed factor
        progress := ⟨s.progress.cost * factor, s.progress.costPasses + 1⟩ } := by
  classical
  have found := (h.balanced proper).costFactor?_eq canonical proper
  rw [if_neg priced, ← eq] at found
  rw [Stage.pass, Stage.recosted, found]
  rfl

theorem multiplies_pass (priced : ¬ d.Unpriced n) :
    (s.balanced l).data.Multiplies (s.pass l).data n
      (1 / min (max ((s.balanced l).data.costNorm n) l.low) l.high) := by
  rw [h.pass_of_priced canonical proper priced rfl]
  exact Data.multiplies_costed _ _ _

theorem cost_pass (priced : ¬ d.Unpriced n) : (s.pass l).progress.cost = s.progress.cost *
    (1 / min (max ((s.balanced l).data.costNorm n) l.low) l.high) := by
  rw [h.pass_of_priced canonical proper priced rfl]

theorem progress_passes_of_unpriced (unpriced : d.Unpriced n) (k : Nat) :
    (s.passes l k).progress = s.progress := by
  induction k generalizing s with
  | zero => rfl
  | succ k ih =>
    refine (ih (h.pass proper)).trans ?_
    rw [h.pass_of_unpriced canonical proper unpriced]
    rfl

theorem costPasses_passes_of_priced (priced : ¬ d.Unpriced n) (k : Nat) :
    (s.passes l k).progress.costPasses = s.progress.costPasses + k := by
  induction k generalizing s with
  | zero => rfl
  | succ k ih =>
    refine (ih (h.pass proper)).trans ?_
    rw [h.pass_of_priced canonical proper priced rfl, Nat.add_right_comm]
    rfl

end Stage.Composed

/-! ## Runs of passes -/

namespace Workspace

/-- Equilibration up to the end of the first `j` passes. -/
noncomputable def firstPasses (j : Nat) : Procedure ℝ (Progress ℝ) := do
  resetScaling
  measure
  passes 1 ⟨1, 0⟩ j

/-- The part of a pass that divides lines by the square roots of their norms. -/
noncomputable def divideLines : Procedure ℝ Unit := do
  measure
  formFactors
  applyFactors

/-- After its lines are divided, a pass has the objective left to scale. -/
theorem run_pass_of_divided {number : Nat} {progress progress' : Progress ℝ} {r₀ r₁ r₂ : Run ℝ}
    (divided : divideLines.run r₀ = .ok () r₁)
    (costed : (scaleCost number progress).run r₁ = .ok progress' r₂) :
    (pass number progress).run r₀ = .ok progress' r₂ := by
  obtain ⟨_, _, measured, rest⟩ := exists_of_run_bind_eq_ok divided
  obtain ⟨_, _, formed, applied⟩ := exists_of_run_bind_eq_ok rest
  exact bind_of_ok measured (bind_of_ok formed (bind_of_ok applied costed))

theorem run_passes_succ {number k : Nat} {progress progress' progress'' : Progress ℝ}
    {r r' r'' : Run ℝ} (first : (passes number progress k).run r = .ok progress' r')
    (last : (pass (k + number) progress').run r' = .ok progress'' r'') :
    (passes number progress (k + 1)).run r = .ok progress'' r'' := by
  induction k generalizing number progress r with
  | zero =>
    cases first
    rw [Nat.zero_add] at last
    exact bind_of_ok last rfl
  | succ k ih =>
    obtain ⟨_, _, ran, rest⟩ := exists_of_run_bind_eq_ok first
    rw [Nat.add_assoc, Nat.add_comm 1] at last
    exact bind_of_ok ran (ih rest last)

theorem run_divideLines {r : Run ℝ} {s : Stage ℝ} {m n : Nat} (shaped : s.Shaped m n)
    {cols rows : Array ℝ} (journal : Journal ℝ) (columns : cols.size = n) (row : rows.size = m) :
    divideLines.run (r.withStage s cols rows journal) = .ok ()
      (r.withStage (s.balanced r.workspace.settings.limiter)
        (s.columnFactors r.workspace.settings.limiter) (s.rowFactors r.workspace.settings.limiter)
        journal) := by
  refine bind_of_ok (run_measure shaped.data columns row) ?_
  refine bind_of_ok (bind_of_ok (run_workspace _) (run_onScaling _ _)) ?_
  exact run_applyFactors shaped _ _ _ (shaped.size_columnFactors _) (shaped.size_rowFactors _)

/-- The run that the first pass starts from. -/
noncomputable def measuredRun (r : Run ℝ) : Run ℝ :=
  (unscaledRun r).withStage (Stage.start r.workspace.data) r.workspace.data.columnNorms
    r.workspace.data.rowNorms r.journal

theorem run_firstPasses_eq {r : Run ℝ} (valid : r.workspace.Valid) (j : Nat) :
    (firstPasses j).run r = (passes 1 ⟨1, 0⟩ j).run (measuredRun r) := by
  refine bind_of_ok (run_resetScaling valid) ?_
  exact bind_of_ok (run_measure valid.shaped_start.data (by simp [Run.withStage, ones])
    (by simp [Run.withStage, ones])) rfl

/-- Pass number `j + 1` of equilibrating a run, step by step, and what it makes of the objective:
once the lines are divided, the objective is divided by its limited norm. -/
structure NormalisesCost (r : Run ℝ) (j : Nat) (progress progress' : Progress ℝ)
    (r₀ r₁ r₂ : Run ℝ) : Prop where
  earlier : (firstPasses j).run r = .ok progress r₀
  divided : divideLines.run r₀ = .ok () r₁
  costed : (scaleCost (j + 1) progress).run r₁ = .ok progress' r₂
  passed : (firstPasses (j + 1)).run r = .ok progress' r₂
  objective : r₁.workspace.data.Multiplies r₂.workspace.data r.workspace.n
    (1 / min (max (r₁.workspace.data.costNorm r.workspace.n) r.workspace.settings.minScaling)
      r.workspace.settings.maxScaling)
  cost : progress'.cost = progress.cost *
    (1 / min (max (r₁.workspace.data.costNorm r.workspace.n) r.workspace.settings.minScaling)
      r.workspace.settings.maxScaling)

section FirstPasses

variable {r : Run ℝ} (valid : r.workspace.Valid)

/-- What the first `j` passes of equilibrating a workspace lead to. -/
noncomputable def stageAfter (w : Workspace ℝ) (j : Nat) : Stage ℝ :=
  (Stage.start w.data).passes w.settings.limiter j

include valid

theorem run_firstPasses (j : Nat) :
    ∃ cols rows journal, cols.size = r.workspace.n ∧ rows.size = r.workspace.m ∧
      (firstPasses j).run r = .ok (r.workspace.stageAfter j).progress
        ((unscaledRun r).withStage (r.workspace.stageAfter j) cols rows journal) := by
  have columns := valid.data.size_columnNorms
  have row := valid.data.size_rowNorms
  have sizes := valid.shaped_start.size_works r.workspace.settings.limiter columns row j
  have ran := run_passes (r := unscaledRun r) valid.shaped_start _ _ r.journal 1 j columns row
  exact ⟨_, _, _, sizes.1, sizes.2, (run_firstPasses_eq valid j).trans ran⟩

/-- Each pass over a problem that lacks neither part of its objective divides the objective by its
limited norm. -/
theorem exists_normalisesCost (canonical : r.workspace.data.Canonical)
    (priced : ¬ r.workspace.data.Unpriced r.workspace.n) (j : Nat) :
    ∃ r₀ r₁ r₂, NormalisesCost r j (r.workspace.stageAfter j).progress
      (r.workspace.stageAfter (j + 1)).progress r₀ r₁ r₂ ∧
        r₂.workspace.data = (r.workspace.stageAfter (j + 1)).data := by
  obtain ⟨cols, rows, journal, columns, row, earlier⟩ := run_firstPasses valid j
  have composed : (r.workspace.stageAfter j).Composed r.workspace.data _ _ :=
    (Stage.composed_start valid.data).passes r.workspace.settings.proper j
  have last : r.workspace.stageAfter (j + 1) =
      (r.workspace.stageAfter j).pass r.workspace.settings.limiter := Stage.passes_succ _ _ _
  have proper := r.workspace.settings.proper
  have balanced := composed.balanced proper
  have divided := run_divideLines (r := unscaledRun r) composed.shaped journal columns row
  have costed := run_scaleCost (r := unscaledRun r) balanced.shaped
    ((r.workspace.stageAfter j).columnFactors r.workspace.settings.limiter)
    ((r.workspace.stageAfter j).rowFactors r.workspace.settings.limiter) journal (j + 1)
    (composed.shaped.size_columnFactors _)
  have passed := (run_firstPasses_eq valid (j + 1)).trans
    (run_passes_succ (run_firstPasses_eq valid j ▸ earlier) (run_pass_of_divided divided costed))
  rw [last]
  exact ⟨_, _, _, ⟨earlier, divided, costed, passed,
    composed.multiplies_pass canonical proper priced,
    composed.cost_pass canonical proper priced⟩, rfl⟩

end FirstPasses

/-! ## The whole procedure -/

section Final

variable {w : Workspace ℝ} (valid : w.Valid)

include valid

/-- Neither the rectification nor making `P` symmetric touches the objective of the last pass. -/
theorem costNorm_final (symmetric : (w.data.P.storage.toMatrix w.n w.n).IsSymm) :
    w.final.data.costNorm w.n = (w.stageAfter w.settings.passes).data.costNorm w.n := by
  have composed := (Stage.composed_start valid.data).passes w.settings.proper w.settings.passes
  have finished := valid.finished.eq_weigh (.inr ((Storage.isSymm_toMatrix
    valid.data.wellFormedP valid.data.rowsP valid.data.columnsP).1 symmetric))
  have onD : w.final.D = (w.stageAfter w.settings.passes).D := Stage.D_finished ..
  have progress : w.final.progress = (w.stageAfter w.settings.passes).progress := progress_final w
  have objective : w.final.data.P = (w.stageAfter w.settings.passes).data.P ∧
      w.final.data.q = (w.stageAfter w.settings.passes).data.q := by
    rw [finished, stageAfter, composed.data]
    simp only [Stage.weigh, Data.weighted, onD, progress]
    exact ⟨rfl, rfl⟩
  simp only [Data.costNorm, Data.meanColumnNorm, objective]

end Final

/-- What equilibrating a run reports and leaves behind about the objective. -/
structure ReportsCost (r : Run ℝ) (report : Report ℝ) (w : Workspace ℝ) : Prop where
  of_unpriced : r.workspace.data.Unpriced r.workspace.n →
    w.scaling.c = 1 ∧ report.costScaledPasses = 0
  costScaledPasses : ¬ r.workspace.data.Unpriced r.workspace.n →
    report.costScaledPasses = r.workspace.settings.passes
  pass : ¬ r.workspace.data.Unpriced r.workspace.n → ∀ j < r.workspace.settings.passes,
    ∃ progress progress' r₀ r₁ r₂, NormalisesCost r j progress progress' r₀ r₁ r₂ ∧
      (j + 1 = r.workspace.settings.passes → w.scaling.c = progress'.cost ∧
        w.data.costNorm r.workspace.n =
          r₁.workspace.data.costNorm r.workspace.n /
            min (max (r₁.workspace.data.costNorm r.workspace.n) r.workspace.settings.minScaling)
              r.workspace.settings.maxScaling ∧
        (r₁.workspace.data.costNorm r.workspace.n ∈
          Set.Icc r.workspace.settings.minScaling r.workspace.settings.maxScaling →
            w.data.costNorm r.workspace.n = 1))

theorem reportsCost_equilibrated {r : Run ℝ} (valid : r.workspace.Valid)
    (canonical : r.workspace.data.Canonical)
    (symmetric : (r.workspace.data.P.storage.toMatrix r.workspace.n r.workspace.n).IsSymm) :
    ReportsCost r r.workspace.report r.workspace.equilibrated where
  of_unpriced unpriced := by
    have kept := (Stage.composed_start valid.data).progress_passes_of_unpriced canonical
      r.workspace.settings.proper unpriced r.workspace.settings.passes
    have cost : r.workspace.final.progress = ⟨1, 0⟩ := (progress_final _).trans kept
    exact ⟨congrArg Progress.cost cost, congrArg Progress.costPasses kept⟩
  costScaledPasses priced := by
    have counted := (Stage.composed_start valid.data).costPasses_passes_of_priced canonical
      r.workspace.settings.proper priced r.workspace.settings.passes
    exact counted.trans (Nat.zero_add _)
  pass priced j _ := by
    obtain ⟨r₀, r₁, r₂, normalises, reached⟩ := exists_normalisesCost valid canonical priced j
    refine ⟨_, _, r₀, r₁, r₂, normalises, ?_⟩
    intro last
    have cost : r.workspace.equilibrated.scaling.c =
        (r.workspace.stageAfter (j + 1)).progress.cost := by
      rw [last]
      exact congrArg Progress.cost (progress_final _)
    have proper := r.workspace.settings.proper
    have divisor : 0 ≤ min (max (r₁.workspace.data.costNorm r.workspace.n)
        r.workspace.settings.minScaling) r.workspace.settings.maxScaling :=
      le_min (proper.low_pos.le.trans (le_max_right _ _)) proper.high_pos.le
    have ends : r.workspace.equilibrated.data.costNorm r.workspace.n =
        r₁.workspace.data.costNorm r.workspace.n /
          min (max (r₁.workspace.data.costNorm r.workspace.n) r.workspace.settings.minScaling)
            r.workspace.settings.maxScaling := by
      have final := costNorm_final valid symmetric
      rwa [← last, ← reached, normalises.objective.costNorm (one_div_nonneg.2 divisor),
        one_div_mul_eq_div] at final
    refine ⟨cost, ends, fun ⟨low, high⟩ => ?_⟩
    have positive : 0 < r₁.workspace.data.costNorm r.workspace.n := proper.low_pos.trans_le low
    rw [ends, max_eq_left low, min_eq_left high, div_self positive.ne']

/-- Equilibrating a raw workspace with symmetric `P` leaves the objective alone if `P` or `q` is
zero. Otherwise every pass divides it by its limited norm, so it ends with the norm that the last
division leaves. -/
theorem equilibrate_normalises_cost {r : Run ℝ} (valid : r.workspace.Valid)
    (canonical : r.workspace.data.Canonical) (raw : r.workspace.phase = .raw)
    (small : r.workspace.cones.extent < countLimit)
    (symmetric : (r.workspace.data.P.storage.toMatrix r.workspace.n r.workspace.n).IsSymm)
    {given : Option (Source ℝ)} {s : Settings ℝ}
    (chosen : r.workspace.settings.chosen? given = .ok s) :
    ∃ report r', (equilibrate given).run r = .ok report r' ∧
      ReportsCost { r with workspace.settings := s } report r'.workspace := by
  have valid' := valid.with_settings s
  obtain ⟨journal, ran⟩ := run_equilibrateChosen_real
    (r := { r with workspace.settings := s }) valid' small
  exact ⟨_, _, (run_equilibrate_of_chosen raw chosen).trans ran,
    reportsCost_equilibrated valid' canonical symmetric⟩

/-- The objective of the problem lacks neither part. -/
theorem priced_hollow : ¬ (hollow 3).data.Unpriced 2 := by
  rintro (quadratic | linear)
  · have first := congrFun (congrFun quadratic 0) 0
    simp [hollow, Storage.toMatrix, Storage.value, Storage.entry, Storage.sliceEntry] at first
  · have first := congrFun linear 0
    simp [hollow, toVector] at first

theorem equilibrate_normalises_cost_hollow :
    ¬ (hollow 3).data.Unpriced 2 ∧
      ∃ report r', (equilibrate none).run ⟨hollow 3, #[]⟩ = .ok report r' ∧
        ReportsCost ⟨hollow 3, #[]⟩ report r'.workspace :=
  ⟨priced_hollow, equilibrate_normalises_cost (r := ⟨hollow 3, #[]⟩) (s := .standard)
    (valid_hollow 3) (canonical_hollow 3) rfl (by decide) (isSymm_hollow 3) rfl⟩

end Workspace

end ConicScaling
