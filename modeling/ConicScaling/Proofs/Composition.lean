import ConicScaling.Proofs.Unital
import ConicScaling.Proofs.Weights

/-!
# The composed transform

At every stage the data are the original ones under the weights that were accumulated so far, and
all weights are positive. A pass keeps this and so does the rectification, which touches the rows
only. Making `P` symmetric at the end amounts to having made it symmetric at the beginning.
-/
namespace ConicScaling

/-! ## Limits -/

/-- Bounds that enclose one, with one for norms that are not positive. -/
structure Limiter.Proper (l : Limiter ℝ) : Prop where
  low_pos : 0 < l.low
  low_le_one : l.low ≤ 1
  one_le_high : 1 ≤ l.high
  degenerate_eq_one : l.degenerate = 1

theorem Settings.proper (s : Settings ℝ) : s.limiter.Proper :=
  ⟨s.admissible.1, s.admissible.2.1, s.admissible.2.2, rfl⟩

/-- Where the bounds are numbers, vectors are limited entry by entry as single candidates are. -/
theorem Limiter.limitEntry_eq_limit {α : Type} [Scalar α] {l : Limiter α}
    (low : Scalar.isNaN l.low = false) (high : Scalar.isNaN l.high = false) (x : α) :
    l.limitEntry x = l.limit x := by
  have raise : Scalar.larger x l.low = Scalar.raise x l.low := if_congr (by simp [low]) rfl rfl
  have lower (y : α) : Scalar.smaller y l.high = Scalar.lower y l.high :=
    if_congr (by simp [high]) rfl rfl
  rw [limitEntry, limit, raise, lower]

theorem Limiter.limitEntry_real (l : Limiter ℝ) (x : ℝ) : l.limitEntry x = l.limit x :=
  limitEntry_eq_limit (Scalar.isNaN_real _) (Scalar.isNaN_real _) x

namespace Limiter.Proper

variable {l : Limiter ℝ} (h : l.Proper) (x : ℝ)

include h

theorem high_pos : 0 < l.high := one_pos.trans_le h.one_le_high

theorem limit_mem : l.limit x ∈ Set.Icc l.low l.high := by
  have bounds := h.low_le_one.trans h.one_le_high
  unfold limit
  split
  · rw [h.degenerate_eq_one]
    exact ⟨h.low_le_one, h.one_le_high⟩
  · simp [bounds]

theorem limit_pos : 0 < l.limit x := h.low_pos.trans_le (h.limit_mem x).1

theorem factors_pos {norms : Array ℝ} : ∀ x ∈ Workspace.factors l norms, 0 < x := by
  intro x hx
  simp only [Workspace.factors, invSqrt, limitVector, Array.mem_map] at hx
  obtain ⟨_, ⟨norm, -, rfl⟩, rfl⟩ := hx
  rw [Scalar.reciprocal_real, l.limitEntry_real]
  exact inv_pos.2 (Real.sqrt_pos.2 (h.limit_pos norm))

theorem costFactor_pos (maxNorm meanNorm : ℝ) : 0 < Workspace.costFactor l maxNorm meanNorm :=
  one_div_pos.2 (h.limit_pos _)

end Limiter.Proper

/-! ## Corrections -/

theorem correction_pos {e : Array ℝ} (positive : ∀ x ∈ e, 0 < x) : ∀ x ∈ correction e, 0 < x := by
  intro x hx
  obtain ⟨y, hy, rfl⟩ := Array.mem_map.1 hx
  exact div_pos (Real.exp_pos _) (positive y hy)

theorem Cone.corrections_pos {c : Cone ℝ} {e : Array ℝ} (positive : ∀ x ∈ e, 0 < x) :
    ∀ x ∈ (c.corrections e).2, 0 < x := by
  apply forall_mem_corrected
  · intro x hx
    obtain ⟨-, rfl⟩ := Array.mem_replicate.1 hx
    exact one_pos
  · intro part within _
    exact correction_pos fun x hx => positive x (within x hx)

theorem times_pos {d v : Array ℝ} (left : ∀ x ∈ d, 0 < x) (right : ∀ x ∈ v, 0 < x) :
    ∀ x ∈ Diagonal.times d v, 0 < x := by
  intro x hx
  obtain ⟨i, hi, rfl⟩ := Array.mem_iff_getElem.1 hx
  simp only [Diagonal.times, Array.getElem_zipWith]
  exact mul_pos (right _ (by simp)) (left _ (by simp))

/-! ## The invariant -/

namespace Stage

/-- The weights that a stage has accumulated. -/
noncomputable def weigh (s : Stage ℝ) (d : Data (DataMatrix ℝ) ℝ) : Data (DataMatrix ℝ) ℝ :=
  d.weighted (Diagonal.entries s.D).weight (Diagonal.entries s.E).weight s.progress.cost

/-- A stage that scaling has led to from given data. -/
structure Composed (s : Stage ℝ) (d : Data (DataMatrix ℝ) ℝ) (m n : Nat) : Prop where
  shaped : s.Shaped m n
  data : s.data = s.weigh d
  D_pos : ∀ x ∈ s.D, 0 < x
  E_pos : ∀ x ∈ s.E, 0 < x
  cost_pos : 0 < s.progress.cost

variable {d : Data (DataMatrix ℝ) ℝ} {m n : Nat}

theorem ones_pos (k : Nat) : ∀ x ∈ (ones k : Array ℝ), 0 < x := by
  intro x hx
  obtain ⟨-, rfl⟩ := Array.mem_replicate.1 hx
  exact one_pos

theorem weight_ones (k i : Nat) : (Diagonal.entries (ones k : Array ℝ)).weight i = 1 := by
  by_cases h : i < k <;> simp [Diagonal.weight, ones, h]

theorem weight_pos {v : Array ℝ} (positive : ∀ x ∈ v, 0 < x) (i : Nat) :
    0 < (Diagonal.entries v).weight i := by
  by_cases h : i < v.size
  · rw [Diagonal.weight_eq v h]
    exact positive _ (Array.getElem_mem h)
  · simp [Diagonal.weight, h]

theorem weight_mul_reciprocal {v : Array ℝ} (positive : ∀ x ∈ v, 0 < x) (i : Nat) :
    (Diagonal.entries v).weight i * (Diagonal.entries (v.map Scalar.reciprocal)).weight i = 1 := by
  rw [Diagonal.weight_map_reciprocal]
  exact mul_inv_cancel₀ (weight_pos positive i).ne'

theorem composed_start (h : d.Shaped m n) : (start d).Composed d m n where
  shaped := shaped_start h
  data := (Data.weighted_one (weight_ones _) (weight_ones _) d).symm
  D_pos := ones_pos _
  E_pos := ones_pos _
  cost_pos := one_pos

namespace Composed

variable {s : Stage ℝ} (h : s.Composed d m n)

include h

theorem balanced {l : Limiter ℝ} (proper : l.Proper) : (s.balanced l).Composed d m n where
  shaped := h.shaped.balanced l
  data := by
    have columns := h.shaped.size_columnFactors l
    have rows := h.shaped.size_rowFactors l
    have onD := Diagonal.weight_times (columns.trans h.shaped.sizeD.symm)
    have onE := Diagonal.weight_times (rows.trans h.shaped.sizeE.symm)
    simp only [Stage.balanced, weigh, Data.scaled_real h.shaped.data
      (Diagonal.spans_entries columns) (Diagonal.spans_entries rows), onD, onE]
    rw [h.data, weigh, Data.weighted_weighted, mul_one]
  D_pos := times_pos proper.factors_pos h.D_pos
  E_pos := times_pos proper.factors_pos h.E_pos
  cost_pos := h.cost_pos

theorem recosted {l : Limiter ℝ} (proper : l.Proper) : (s.recosted l).Composed d m n := by
  have shaped := h.shaped.recosted l
  unfold Stage.recosted at shaped ⊢
  cases found : s.data.costFactor? l with
  | none => exact h
  | some factor =>
    have positive : 0 < factor := by
      rw [Data.eq_of_costFactor? found]
      exact proper.costFactor_pos _ _
    refine ⟨by simpa [found] using shaped, ?_, h.D_pos, h.E_pos, mul_pos h.cost_pos positive⟩
    simp only [weigh]
    rw [Data.costed_real, h.data, weigh, Data.weighted_weighted]
    simp

theorem pass {l : Limiter ℝ} (proper : l.Proper) : (s.pass l).Composed d m n :=
  (h.balanced proper).recosted proper

theorem passes {l : Limiter ℝ} (proper : l.Proper) (k : Nat) : (s.passes l k).Composed d m n := by
  induction k generalizing s with
  | zero => exact h
  | succ k ih => exact ih (h.pass proper)

theorem rectified (cones : Cone ℝ) : (s.rectified cones).Composed d m n := by
  have shaped := h.shaped.rectified cones
  unfold Stage.rectified at shaped ⊢
  cases found : s.correction? cones with
  | none => exact h
  | some e =>
    have size := h.shaped.size_correction found
    have positive : ∀ x ∈ e, 0 < x := by
      rw [eq_of_correction? found]
      exact Cone.corrections_pos h.E_pos
    have onE := Diagonal.weight_times (size.trans h.shaped.sizeE.symm)
    refine ⟨by simpa [found] using shaped, ?_, h.D_pos, times_pos positive h.E_pos, h.cost_pos⟩
    simp only [weigh, Data.scaled_real h.shaped.data (D := .identity) trivial
      (Diagonal.spans_entries size), onE]
    rw [h.data, weigh, Data.weighted_weighted, mul_one]
    simp only [Diagonal.weight_identity, mul_one]

theorem value_P (i j : Nat) : s.data.P.storage.value i j = d.P.storage.value i j *
    (s.progress.cost * (Diagonal.entries s.D).weight i * (Diagonal.entries s.D).weight j) := by
  rw [h.data]
  exact Storage.value_weighted _ _ i j

theorem weightD_pos (i : Nat) : 0 < (Diagonal.entries s.D).weight i := weight_pos h.D_pos i

/-- Scaling neither makes `P` symmetric nor stops it from being so. -/
theorem isSymmetric_iff :
    s.data.P.isSymmetric = true ↔ ∀ i j, d.P.storage.value i j = d.P.storage.value j i := by
  rw [DataMatrix.isSymmetric_iff]
  refine forall₂_congr fun i j => ?_
  have weight : 0 < s.progress.cost * (Diagonal.entries s.D).weight i *
      (Diagonal.entries s.D).weight j :=
    mul_pos (mul_pos h.cost_pos (h.weightD_pos i)) (h.weightD_pos j)
  rw [h.value_P i j, h.value_P j i, mul_right_comm _ ((Diagonal.entries s.D).weight j)]
  exact mul_left_inj' weight.ne'

/-- The symmetric part of the scaled matrix is the scaled symmetric part. -/
theorem value_symmetrized (i j : Nat) : s.symmetrized.data.P.storage.value i j =
    (d.P.storage.value i j + d.P.storage.value j i) / 2 *
      (s.progress.cost * (Diagonal.entries s.D).weight i * (Diagonal.entries s.D).weight j) := by
  unfold Stage.symmetrized
  split
  · rename_i symmetric
    rw [h.value_P, h.isSymmetric_iff.1 symmetric j i]
    ring
  · have square := h.shaped.data.rowsP.trans h.shaped.data.columnsP.symm
    rw [DataMatrix.value_symmetrized h.shaped.data.wellFormedP square, h.value_P, h.value_P]
    ring

end Composed

/-! ## The final stage -/

/-- What `k` passes over given data have led to in the end. Of `P` the symmetric part was scaled,
unless there was no pass. -/
structure Finished (s : Stage ℝ) (d : Data (DataMatrix ℝ) ℝ) (k m n : Nat) : Prop where
  shaped : s.Shaped m n
  A : s.data.A = (s.weigh d).A
  q : s.data.q = (s.weigh d).q
  b : s.data.b = (s.weigh d).b
  value_P : ∀ i j, s.data.P.storage.value i j =
    (if k = 0 then d.P.storage.value i j
      else (d.P.storage.value i j + d.P.storage.value j i) / 2) *
        (s.progress.cost * (Diagonal.entries s.D).weight i * (Diagonal.entries s.D).weight j)
  eq_weigh : k = 0 ∨ (∀ i j, d.P.storage.value i j = d.P.storage.value j i) →
    s.data = s.weigh d
  D_pos : ∀ x ∈ s.D, 0 < x
  E_pos : ∀ x ∈ s.E, 0 < x
  cost_pos : 0 < s.progress.cost

theorem Composed.finished_zero {s : Stage ℝ} (h : s.Composed d m n) : s.Finished d 0 m n where
  shaped := h.shaped
  A := congrArg Data.A h.data
  q := congrArg Data.q h.data
  b := congrArg Data.b h.data
  value_P i j := h.value_P i j
  eq_weigh _ := h.data
  D_pos := h.D_pos
  E_pos := h.E_pos
  cost_pos := h.cost_pos

theorem Composed.finished_symmetrized {s : Stage ℝ} (h : s.Composed d m n) {k : Nat}
    (some : k ≠ 0) : s.symmetrized.Finished d k m n := by
  have shaped := h.shaped.symmetrized
  have value := h.value_symmetrized
  unfold Stage.symmetrized at shaped value ⊢
  by_cases symmetric : s.data.P.isSymmetric = true
  · simp only [symmetric, if_true] at shaped value ⊢
    exact { h.finished_zero with
      value_P := fun i j => by rw [if_neg some, value i j]
      eq_weigh := fun _ => h.data }
  · simp only [symmetric] at shaped value ⊢
    refine { h.finished_zero with
      shaped, value_P := fun i j => ?_, eq_weigh := fun unscaled => ?_ }
    · rw [if_neg some]
      exact value i j
    · exact absurd (h.isSymmetric_iff.2 (unscaled.resolve_left some)) symmetric

/-- Equilibration leads to a stage that is told by its scaling. -/
theorem finished_start {l : Limiter ℝ} (proper : l.Proper) (h : d.Shaped m n) (cones : Cone ℝ)
    (k : Nat) : ((start d).finished l cones k).Finished d k m n := by
  rcases Nat.eq_zero_or_pos k with rfl | some
  · rw [finished_zero]
    exact (composed_start h).finished_zero
  · have last := ((composed_start h).passes proper k).rectified cones
    simpa [finished, some] using last.finished_symmetrized some.ne'

end Stage

end ConicScaling
