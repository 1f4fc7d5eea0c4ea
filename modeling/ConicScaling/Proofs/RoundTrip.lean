import ConicScaling.Proofs.Backward
import ConicScaling.Proofs.Transform

/-!
# There and back

In exact arithmetic the stored inverses undo all passes at once. Iterates and boxes come back as
they were, and so do the stored entries of the data, except that an asymmetric `P` comes back as its
symmetric part.
-/
namespace ConicScaling

namespace Stage.Finished

variable {s : Stage ℝ} {d : Data (DataMatrix ℝ) ℝ} {k m n : Nat} (h : s.Finished d k m n)

include h

/-- The final data under the inverse weights. -/
theorem weigh_inverse : (s.weigh d).weighted
    (Diagonal.entries (s.D.map Scalar.reciprocal)).weight
    (Diagonal.entries (s.E.map Scalar.reciprocal)).weight (1 / s.progress.cost) = d := by
  rw [weigh, Data.weighted_weighted, mul_one_div_cancel h.cost_pos.ne']
  exact Data.weighted_one (weight_mul_reciprocal h.D_pos) (weight_mul_reciprocal h.E_pos) d

end Stage.Finished

namespace Workspace

/-- What is left of a workspace that went through `k` passes and was mapped back. The flag tells
whether the data are mapped back as well. -/
structure Restores (w : Workspace ℝ) (k : Nat) (flag : Bool) (scaled returned : Workspace ℝ) :
    Prop where
  phase : returned.phase = .unscaled
  iterates : returned.iterates = w.iterates
  A : flag → returned.data.A = w.data.A
  q : flag → returned.data.q = w.data.q
  b : flag → returned.data.b = w.data.b
  cones : flag → returned.cones = w.cones
  P : flag → k = 0 ∨ (w.data.P.storage.toMatrix w.n w.n).IsSymm → returned.data.P = w.data.P
  toMatrix_P : flag → returned.data.P.storage.toMatrix w.n w.n =
    objectivePart k (w.data.P.storage.toMatrix w.n w.n)
  unchanged : ¬ flag → returned.data = scaled.data ∧ returned.cones = scaled.cones

variable {w : Workspace ℝ}

/-- The iterates come back, `s` and `mu` although they were scaled the opposite way. -/
theorem returnedIterates_scaledIterates {t : Scaling ℝ} {i : Iterates ℝ} {m n : Nat}
    (scaling : t.Sized m n) (iterates : i.Sized m n) (D_pos : ∀ x ∈ t.D, 0 < x)
    (E_pos : ∀ x ∈ t.E, 0 < x) (Dinv : t.Dinv = t.D.map Scalar.reciprocal)
    (Einv : t.Einv = t.E.map Scalar.reciprocal) (c : t.c * t.cinv = 1) :
    returnedIterates t (scaledIterates t i) = i := by
  have onD := Stage.weight_mul_reciprocal D_pos
  have onE := Stage.weight_mul_reciprocal E_pos
  rw [← Dinv] at onD
  rw [← Einv] at onE
  have x : Diagonal.times t.D (Diagonal.times t.Dinv i.x) = i.x :=
    Diagonal.times_times_of_inverse (scaling.Dinv.trans iterates.x.symm)
      (scaling.D.trans iterates.x.symm) fun j => (mul_comm _ _).trans (onD j)
  have s : Diagonal.times t.Einv (Diagonal.times t.E i.s) = i.s :=
    Diagonal.times_times_of_inverse (scaling.E.trans iterates.s.symm)
      (scaling.Einv.trans iterates.s.symm) onE
  have mu : (Diagonal.times t.E ((Diagonal.times t.Einv i.mu).map (· * t.c))).map (· * t.cinv) =
      i.mu := by
    have inner := scaling.Einv.trans iterates.mu.symm
    have outer := scaling.E.trans iterates.mu.symm
    rw [map_mul_eq_weightedVector, map_mul_eq_weightedVector,
      Diagonal.times_eq_weightedVector inner,
      Diagonal.times_eq_weightedVector (by simpa using outer)]
    simp only [weightedVector_weightedVector]
    refine weightedVector_one (fun j => ?_) _
    calc (Diagonal.entries t.Einv).weight j * t.c * (Diagonal.entries t.E).weight j * t.cinv
        = (Diagonal.entries t.E).weight j * (Diagonal.entries t.Einv).weight j *
            (t.c * t.cinv) := by ring
      _ = 1 := by rw [onE j, c, one_mul]
  simp only [returnedIterates, scaledIterates, x, s, mu]

theorem restores_returned (valid : w.Valid) (small : w.cones.extent < countLimit) :
    w.Restores w.settings.passes w.settings.reverseData.isTrue w.equilibrated
      w.equilibrated.returned := by
  have finished := valid.finished
  have sized := valid.sized_scaledTo
  have inverse := finished.weigh_inverse
  have undone : w.settings.reverseData.isTrue → w.equilibrated.returned.data =
      w.final.data.weighted (Diagonal.entries (w.final.D.map Scalar.reciprocal)).weight
        (Diagonal.entries (w.final.E.map Scalar.reciprocal)).weight
          (1 / w.final.progress.cost) := by
    intro flag
    refine (if_pos flag).trans ?_
    exact Data.scaled_real finished.shaped.data (Diagonal.spans_entries sized.Dinv)
      (Diagonal.spans_entries sized.Einv) _
  have cancel : ∀ x ∈ w.final.E, ∀ v : ℝ, v * x * Scalar.reciprocal x = v := by
    intro x hx v
    rw [Scalar.reciprocal_real, mul_inv_cancel_right₀ (finished.E_pos x hx).ne']
  constructor
  case phase => rfl
  case iterates =>
    exact returnedIterates_scaledIterates sized valid.iterates finished.D_pos finished.E_pos rfl rfl
      (mul_one_div_cancel finished.cost_pos.ne')
  case A =>
    intro flag
    rw [undone flag]
    exact (congrArg (DataMatrix.weighted _) finished.A).trans (congrArg Data.A inverse)
  case q =>
    intro flag
    rw [undone flag]
    exact (congrArg (weightedVector _) finished.q).trans (congrArg Data.q inverse)
  case b =>
    intro flag
    rw [undone flag]
    exact (congrArg (weightedVector _) finished.b).trans (congrArg Data.b inverse)
  case cones =>
    intro flag
    refine (if_pos flag).trans ?_
    exact Cone.scaled_scaled_map valid.balanced
      (finished.shaped.sizeE.symm ▸ valid.fits small) cancel
  case P =>
    intro flag symmetric
    rw [Storage.isSymm_toMatrix valid.data.wellFormedP valid.data.rowsP valid.data.columnsP]
      at symmetric
    rw [undone flag, finished.eq_weigh symmetric, inverse]
  case toMatrix_P =>
    intro flag
    ext i j
    have weights : w.final.progress.cost * (Diagonal.entries w.final.D).weight i *
        (Diagonal.entries w.final.D).weight j * (1 / w.final.progress.cost *
          (Diagonal.entries (w.final.D.map Scalar.reciprocal)).weight i *
            (Diagonal.entries (w.final.D.map Scalar.reciprocal)).weight j) = 1 := by
      rw [mul_mul_mul_comm, mul_mul_mul_comm w.final.progress.cost,
        mul_one_div_cancel finished.cost_pos.ne', Stage.weight_mul_reciprocal finished.D_pos,
        Stage.weight_mul_reciprocal finished.D_pos, one_mul, one_mul]
    rw [undone flag, objectivePart_apply, Storage.toMatrix_apply]
    refine (Storage.value_weighted _ _ _ _).trans ?_
    rw [finished.value_P, mul_assoc, weights, mul_one]
    rfl
  case unchanged => exact fun flag => ⟨if_neg flag, if_neg flag⟩

/-- Equilibrating a raw workspace and mapping it back restores it. -/
theorem reverse_equilibrate_restores {r : Run ℝ} (valid : r.workspace.Valid)
    (raw : r.workspace.phase = .raw) (small : r.workspace.cones.extent < countLimit)
    {given : Option (Source ℝ)} {s : Settings ℝ}
    (chosen : r.workspace.settings.chosen? given = .ok s) :
    ∃ report r₁ r₂, (equilibrate given).run r = .ok report r₁ ∧ reverse.run r₁ = .ok () r₂ ∧
      r.workspace.Restores s.passes s.reverseData.isTrue r₁.workspace r₂.workspace := by
  have valid' := valid.with_settings s
  obtain ⟨journal, ran⟩ := run_equilibrateChosen_real
    (r := { r with workspace.settings := s }) valid' small
  have equilibrates := equilibrates_equilibrated valid' small
  have restores := restores_returned valid' small
  have back := run_reverse_of_equilibrated valid' (valid.fits small) equilibrates.iterates journal
  exact ⟨_, _, _, (run_equilibrate_of_chosen raw chosen).trans ran, back, { restores with }⟩

theorem reverse_equilibrate_restores_sample :
    ∃ report r₁ r₂, (equilibrate none).run ⟨sample 1, #[]⟩ = .ok report r₁ ∧
      reverse.run r₁ = .ok () r₂ ∧
        (sample 1).Restores 10 (Settings.standard : Settings ℝ).reverseData.isTrue
          r₁.workspace r₂.workspace :=
  reverse_equilibrate_restores (r := ⟨sample 1, #[]⟩) (s := .standard) (valid_sample 1) rfl
    (by rw [extent_sample]; decide) rfl

end Workspace

end ConicScaling
