import ConicScaling.Proofs.Backward
import ConicScaling.Proofs.Corrections
import ConicScaling.Proofs.Transform

/-!
# Bounds on the factors

A pass multiplies each entry of `D` and `E` by one over the square root of a limited norm, and the
cost factor by one over a limited norm or not at all. So `k` passes keep them within the `k`-th
powers of what the limits allow, whatever the data do, and the rectification keeps them there too.
-/
namespace ConicScaling

/-! ## Passes -/

namespace Limiter.Proper

variable {l : Limiter ℝ} (h : l.Proper)

include h

theorem factors_mem {norms : Array ℝ} :
    ∀ x ∈ Workspace.factors l norms, x ∈ Set.Icc (√l.high)⁻¹ (√l.low)⁻¹ := by
  intro x hx
  simp only [Workspace.factors, invSqrt, limitVector, Array.mem_map] at hx
  obtain ⟨_, ⟨norm, -, rfl⟩, rfl⟩ := hx
  have limited := h.limit_mem norm
  rw [Scalar.reciprocal_real, l.limitEntry_real]
  exact ⟨inv_anti₀ (Real.sqrt_pos.2 (h.limit_pos norm)) (Real.sqrt_le_sqrt limited.2),
    inv_anti₀ (Real.sqrt_pos.2 h.low_pos) (Real.sqrt_le_sqrt limited.1)⟩

theorem costFactor_mem (maxNorm meanNorm : ℝ) :
    Workspace.costFactor l maxNorm meanNorm ∈ Set.Icc l.high⁻¹ l.low⁻¹ := by
  have limited := h.limit_mem (Scalar.raise (l.limit maxNorm) meanNorm)
  rw [Workspace.costFactor, one_div]
  exact ⟨inv_anti₀ (h.limit_pos _) limited.2, inv_anti₀ h.low_pos limited.1⟩

end Limiter.Proper

theorem mul_mem_Icc_pow {low high x y : ℝ} {k : Nat} (positive : 0 < low)
    (hx : x ∈ Set.Icc (low ^ k) (high ^ k)) (hy : y ∈ Set.Icc low high) :
    x * y ∈ Set.Icc (low ^ (k + 1)) (high ^ (k + 1)) := by
  rw [pow_succ, pow_succ]
  exact ⟨mul_le_mul hx.1 hy.1 positive.le ((pow_pos positive k).le.trans hx.1),
    mul_le_mul hx.2 hy.2 (positive.le.trans hy.1)
      ((pow_pos positive k).le.trans (hx.1.trans hx.2))⟩

theorem times_mem_Icc_pow {u v : Array ℝ} {low high : ℝ} {k : Nat} (positive : 0 < low)
    (hu : ∀ x ∈ u, x ∈ Set.Icc (low ^ k) (high ^ k)) (hv : ∀ x ∈ v, x ∈ Set.Icc low high) :
    ∀ x ∈ Diagonal.times v u, x ∈ Set.Icc (low ^ (k + 1)) (high ^ (k + 1)) := by
  intro x hx
  obtain ⟨i, hi, rfl⟩ := Array.mem_iff_getElem.1 hx
  simp only [Diagonal.times, Array.getElem_zipWith]
  exact mul_mem_Icc_pow positive (hu _ (Array.getElem_mem _)) (hv _ (Array.getElem_mem _))

namespace Stage

/-- What `k` passes within given limits allow of the accumulated factors. -/
structure Within (s : Stage ℝ) (l : Limiter ℝ) (k : Nat) : Prop where
  D : ∀ x ∈ s.D, x ∈ Set.Icc ((√l.high)⁻¹ ^ k) ((√l.low)⁻¹ ^ k)
  E : ∀ x ∈ s.E, x ∈ Set.Icc ((√l.high)⁻¹ ^ k) ((√l.low)⁻¹ ^ k)
  cost : s.progress.cost ∈ Set.Icc (l.high⁻¹ ^ k) (l.low⁻¹ ^ k)

theorem within_start (d : Data (DataMatrix ℝ) ℝ) (l : Limiter ℝ) : (start d).Within l 0 := by
  constructor <;> simp [start, ones]

namespace Within

variable {s : Stage ℝ} {l : Limiter ℝ} {k : Nat} (h : s.Within l k) (proper : l.Proper)

include h proper

theorem pass : (s.pass l).Within l (k + 1) := by
  have positive : 0 < (√l.high)⁻¹ := inv_pos.2 (Real.sqrt_pos.2 proper.high_pos)
  have positive' : 0 < l.high⁻¹ := inv_pos.2 proper.high_pos
  have D : ∀ x ∈ (s.balanced l).D, _ := times_mem_Icc_pow positive h.D proper.factors_mem
  have E : ∀ x ∈ (s.balanced l).E, _ := times_mem_Icc_pow positive h.E proper.factors_mem
  unfold Stage.pass Stage.recosted
  cases found : (s.balanced l).data.costFactor? l with
  | none =>
    -- without a factor the cost stays where it was, and limits enclose one
    have one : (1 : ℝ) ∈ Set.Icc l.high⁻¹ l.low⁻¹ :=
      ⟨inv_le_one_of_one_le₀ proper.one_le_high, (one_le_inv₀ proper.low_pos).2 proper.low_le_one⟩
    have cost := mul_mem_Icc_pow positive' h.cost one
    rw [mul_one] at cost
    exact ⟨D, E, cost⟩
  | some factor =>
    rw [Data.eq_of_costFactor? found]
    exact ⟨D, E, mul_mem_Icc_pow positive' h.cost (proper.costFactor_mem _ _)⟩

theorem passes (j : Nat) : (s.passes l j).Within l (k + j) := by
  induction j generalizing s k with
  | zero => exact h
  | succ j ih =>
    rw [← Nat.succ_add_eq_add_succ k j]
    exact ih (h.pass proper)

theorem rectified (cones : Cone ℝ) : (s.rectified cones).Within l k := by
  unfold Stage.rectified
  cases found : s.correction? cones with
  | none => exact h
  | some e =>
    rw [eq_of_correction? found]
    have positive : 0 < (√l.high)⁻¹ ^ k := pow_pos (inv_pos.2 (Real.sqrt_pos.2 proper.high_pos)) k
    exact ⟨h.D, Cone.times_corrections_mem positive h.E, h.cost⟩

omit proper in
theorem symmetrized : s.symmetrized.Within l k := by
  unfold Stage.symmetrized
  split
  · exact h
  · exact ⟨h.D, h.E, h.cost⟩

end Within

theorem within_finished {l : Limiter ℝ} (proper : l.Proper) (d : Data (DataMatrix ℝ) ℝ)
    (cones : Cone ℝ) (k : Nat) : ((start d).finished l cones k).Within l k := by
  have passed := (within_start d l).passes proper k
  rw [Nat.zero_add] at passed
  have rectified := passed.rectified proper cones
  unfold finished
  dsimp only
  split
  · exact rectified.symmetrized
  · exact rectified

/-- Whether a pass divides by positive numbers only. -/
structure PositiveDivisors (l : Limiter ℝ) (s : Stage ℝ) : Prop where
  columns : ∀ x ∈ (l.limitVector s.data.columnNorms).map Scalar.sqrt, 0 < x
  rows : ∀ x ∈ (l.limitVector s.data.rowNorms).map Scalar.sqrt, 0 < x
  cost : 0 < l.limit (Scalar.raise (l.limit (infNorm (s.balanced l).data.q))
    (mean (s.balanced l).data.objectiveNorms))

theorem positiveDivisors {l : Limiter ℝ} (proper : l.Proper) (s : Stage ℝ) :
    s.PositiveDivisors l := by
  have limited (norms : Array ℝ) : ∀ x ∈ (l.limitVector norms).map Scalar.sqrt, 0 < x := by
    intro x hx
    simp only [Limiter.limitVector, Array.mem_map] at hx
    obtain ⟨_, ⟨norm, -, rfl⟩, rfl⟩ := hx
    rw [l.limitEntry_real]
    exact Real.sqrt_pos.2 (proper.limit_pos norm)
  exact ⟨limited _, limited _, proper.limit_pos _⟩

end Stage

/-! ## The whole procedure -/

theorem inv_sqrt_pow {x : ℝ} (h : 0 < x) (k : Nat) : (√x)⁻¹ ^ k = x ^ (-(k : ℝ) / 2) := by
  rw [Real.sqrt_eq_rpow, ← Real.rpow_neg h.le, ← Real.rpow_natCast, ← Real.rpow_mul h.le]
  congr 1
  ring

theorem inv_pow_eq_rpow {x : ℝ} (h : 0 < x) (k : Nat) : x⁻¹ ^ k = x ^ (-(k : ℝ)) := by
  rw [Real.rpow_neg h.le, Real.rpow_natCast, inv_pow]

/-- The bounds that `k` passes put on the factors, and the inverses that these have. -/
structure Scaling.Bounded (t : Scaling ℝ) (low high : ℝ) (k : Nat) : Prop where
  D : ∀ x ∈ t.D, x ∈ Set.Icc (high ^ (-(k : ℝ) / 2)) (low ^ (-(k : ℝ) / 2))
  E : ∀ x ∈ t.E, x ∈ Set.Icc (high ^ (-(k : ℝ) / 2)) (low ^ (-(k : ℝ) / 2))
  c : t.c ∈ Set.Icc (high ^ (-(k : ℝ))) (low ^ (-(k : ℝ)))
  D_pos : ∀ x ∈ t.D, 0 < x
  E_pos : ∀ x ∈ t.E, 0 < x
  c_pos : 0 < t.c
  Dinv : t.Dinv = t.D.map (·⁻¹)
  Einv : t.Einv = t.E.map (·⁻¹)
  cinv : t.cinv = t.c⁻¹

namespace Workspace

theorem bounded_equilibrated {w : Workspace ℝ} (valid : w.Valid) : w.equilibrated.scaling.Bounded
      w.settings.minScaling w.settings.maxScaling w.settings.passes := by
  have proper := w.settings.proper
  have low_pos : 0 < w.settings.minScaling := proper.low_pos
  have high_pos : 0 < w.settings.maxScaling := proper.high_pos
  obtain ⟨D, E, cost⟩ := Stage.within_finished proper w.data w.cones w.settings.passes
  have finished := valid.finished
  rw [inv_sqrt_pow proper.high_pos, inv_sqrt_pow proper.low_pos] at D E
  rw [inv_pow_eq_rpow proper.high_pos, inv_pow_eq_rpow proper.low_pos] at cost
  refine ⟨D, E, cost, finished.D_pos, finished.E_pos, finished.cost_pos, ?_, ?_, ?_⟩
  · simp [equilibrated, scaledTo, reached, funext Scalar.reciprocal_real]
  · simp [equilibrated, scaledTo, reached, funext Scalar.reciprocal_real]
  · exact one_div _

/-- Whether every reciprocal that `k` passes and the end of equilibration take is that of a positive
number. -/
structure PositiveDivisors (w : Workspace ℝ) : Prop where
  passes : ∀ j < w.settings.passes,
    ((Stage.start w.data).passes w.settings.limiter j).PositiveDivisors w.settings.limiter
  rectification : ∀ x ∈ w.lastPass.E, 0 < x
  D : ∀ x ∈ w.final.D, 0 < x
  E : ∀ x ∈ w.final.E, 0 < x
  cost : 0 < w.final.progress.cost

/-- Equilibrating a raw workspace succeeds with factors between bounds that depend on the limits and
the number of passes only. No divisor is zero on the way there, and none is needed on the way back,
which succeeds too. -/
theorem equilibrate_bounds_factors {r : Run ℝ} (valid : r.workspace.Valid)
    (raw : r.workspace.phase = .raw) (small : r.workspace.cones.extent < countLimit)
    {given : Option (Source ℝ)} {s : Settings ℝ}
    (chosen : r.workspace.settings.chosen? given = .ok s) :
    ∃ report r₁ r₂, (equilibrate given).run r = .ok report r₁ ∧ reverse.run r₁ = .ok () r₂ ∧
      r₁.workspace.scaling.Bounded s.minScaling s.maxScaling s.passes ∧
        r₂.workspace.scaling = r₁.workspace.scaling ∧
          PositiveDivisors { r.workspace with settings := s } := by
  have valid' := valid.with_settings s
  have finished := valid'.finished
  obtain ⟨journal, ran⟩ := run_equilibrateChosen_real
    (r := { r with workspace.settings := s }) valid' small
  have iterates := (equilibrates_equilibrated valid' small).iterates
  have back := run_reverse_of_equilibrated valid' (valid.fits small) iterates journal
  have last := (Stage.composed_start valid'.data).passes s.proper s.passes
  refine ⟨_, _, _, (run_equilibrate_of_chosen raw chosen).trans ran, back,
    bounded_equilibrated valid', rfl, ?_⟩
  exact ⟨fun j _ => Stage.positiveDivisors s.proper _, last.E_pos, finished.D_pos,
    finished.E_pos, finished.cost_pos⟩

theorem equilibrate_bounds_factors_sample :
    ∃ report r₁ r₂, (equilibrate none).run ⟨sample 1, #[]⟩ = .ok report r₁ ∧
      reverse.run r₁ = .ok () r₂ ∧
        r₁.workspace.scaling.Bounded (sample 1).settings.minScaling
          (sample 1).settings.maxScaling 10 ∧
          r₂.workspace.scaling = r₁.workspace.scaling ∧ PositiveDivisors (sample 1) :=
  equilibrate_bounds_factors (r := ⟨sample 1, #[]⟩) (s := .standard) (valid_sample 1) rfl
    (by rw [extent_sample]; decide) rfl

end Workspace

end ConicScaling
