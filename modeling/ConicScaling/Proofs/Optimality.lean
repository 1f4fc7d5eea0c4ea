import ConicScaling.Proofs.RoundTrip

/-!
# Optimality conditions

What a solver finds for the scaled problem solves the problem as it was given, once it is mapped
back: each residual of the scaled problem is the residual of the given one times positive factors.
This holds of all iterates, not only of those that equilibration mapped.
-/
namespace ConicScaling

open Matrix Procedure

/-! ## Residuals -/

section Residuals

variable {m n : Nat}

noncomputable def primalResidual (d : Data (DataMatrix ℝ) ℝ) (i : Iterates ℝ) (m n : Nat) :
    Fin m → ℝ :=
  d.A.storage.toMatrix m n *ᵥ toVector i.x n + toVector i.s m - toVector d.b m

noncomputable def dualResidual (d : Data (DataMatrix ℝ) ℝ) (i : Iterates ℝ) (m n : Nat) :
    Fin n → ℝ :=
  d.P.storage.toMatrix n n *ᵥ toVector i.x n + toVector d.q n +
    (d.A.storage.toMatrix m n)ᵀ *ᵥ toVector i.mu m

def complementarity (i : Iterates ℝ) (m : Nat) : ℝ := toVector i.s m ⬝ᵥ toVector i.mu m

theorem diagonal_mulVec (d v : Fin n → ℝ) : diagonal d *ᵥ v = d * v := by
  funext i
  exact mulVec_diagonal d v i

/-- A product with diagonals on both sides, applied to a vector. -/
theorem sandwich_mulVec (E : Fin m → ℝ) (M : Matrix (Fin m) (Fin n) ℝ) (D x : Fin n → ℝ) :
    (diagonal E * M * diagonal D) *ᵥ x = E * (M *ᵥ (D * x)) := by
  rw [← mulVec_mulVec, ← mulVec_mulVec, diagonal_mulVec, diagonal_mulVec]

theorem transpose_sandwich (E : Fin m → ℝ) (M : Matrix (Fin m) (Fin n) ℝ) (D : Fin n → ℝ) :
    (diagonal E * M * diagonal D)ᵀ = diagonal D * Mᵀ * diagonal E := by
  rw [transpose_mul, transpose_mul, diagonal_transpose, diagonal_transpose, Matrix.mul_assoc]

theorem mul_dotProduct (d v w : Fin n → ℝ) : (d * v) ⬝ᵥ w = v ⬝ᵥ (d * w) := by
  simp only [dotProduct, Pi.mul_apply]
  exact Finset.sum_congr rfl fun i _ => by ring

end Residuals

namespace Workspace

/-- The iterates of the second workspace are those of the first in the units before scaling. -/
structure MapsBack (scaled returned : Workspace ℝ) (m n : Nat) : Prop where
  x : toVector returned.iterates.x n =
    toVector scaled.scaling.D n * toVector scaled.iterates.x n
  s : toVector scaled.scaling.E m * toVector returned.iterates.s m = toVector scaled.iterates.s m
  mu : scaled.scaling.c • toVector returned.iterates.mu m =
    toVector scaled.scaling.E m * toVector scaled.iterates.mu m

/-- The conditions of a scaled problem at the iterates of a workspace, compared with those of the
given problem at the iterates that were mapped back. -/
structure Transfers (w scaled returned : Workspace ℝ) : Prop where
  primal : primalResidual scaled.data scaled.iterates w.m w.n =
    toVector scaled.scaling.E w.m * primalResidual w.data returned.iterates w.m w.n
  dual : dualResidual scaled.data scaled.iterates w.m w.n = scaled.scaling.c •
    (toVector scaled.scaling.D w.n * dualResidual w.data returned.iterates w.m w.n)
  complementarity : complementarity scaled.iterates w.m =
    scaled.scaling.c * complementarity returned.iterates w.m
  objective : objective scaled.data scaled.iterates w.n =
    scaled.scaling.c * objective w.data returned.iterates w.n
  primal_zero : primalResidual scaled.data scaled.iterates w.m w.n = 0 ↔
    primalResidual w.data returned.iterates w.m w.n = 0
  dual_zero : dualResidual scaled.data scaled.iterates w.m w.n = 0 ↔
    dualResidual w.data returned.iterates w.m w.n = 0
  complementarity_zero : ConicScaling.complementarity scaled.iterates w.m = 0 ↔
    ConicScaling.complementarity returned.iterates w.m = 0

variable {w w₁ : Workspace ℝ} {k : Nat} {i : Iterates ℝ}

theorem Equilibrates.E_ne_zero (h : w.Equilibrates k w₁) (l : Fin w.m) :
    toVector w₁.scaling.E w.m l ≠ 0 :=
  left_ne_zero_of_mul_eq_one (congrFun h.E_mul_Einv l)

theorem Equilibrates.D_ne_zero (h : w.Equilibrates k w₁) (l : Fin w.n) :
    toVector w₁.scaling.D w.n l ≠ 0 :=
  left_ne_zero_of_mul_eq_one (congrFun h.D_mul_Dinv l)

theorem Equilibrates.c_ne_zero (h : w.Equilibrates k w₁) : w₁.scaling.c ≠ 0 :=
  left_ne_zero_of_mul_eq_one h.c_mul_cinv

/-- Mapping back is by the factors, whichever iterates are mapped. -/
theorem Equilibrates.mapsBack (h : w.Equilibrates k w₁) (sized : i.Sized w.m w.n) :
    MapsBack { w₁ with iterates := i } (returned { w₁ with iterates := i }) w.m w.n where
  x := toVector_times h.scaling.D sized.x
  s := by
    have inverse := toVector_times h.scaling.Einv sized.s
    simp only [returned, returnedIterates, inverse, ← mul_assoc, h.E_mul_Einv, one_mul]
  mu := by
    have forth := toVector_times h.scaling.E sized.mu
    simp only [returned, returnedIterates, toVector_map_mul, forth, smul_smul, h.c_mul_cinv,
      one_smul]

theorem MapsBack.complementarity_eq {returned : Workspace ℝ} {m n : Nat}
    (back : MapsBack { w₁ with iterates := i } returned m n) : complementarity i m =
    w₁.scaling.c * complementarity returned.iterates m := by
  have s := back.s
  have mu := back.mu
  simp only at s mu
  rw [ConicScaling.complementarity, ConicScaling.complementarity, ← s, mul_dotProduct, ← mu,
    dotProduct_smul, smul_eq_mul]

section Transfer

variable {returned : Workspace ℝ} (h : w.Equilibrates k w₁)
  (back : MapsBack { w₁ with iterates := i } returned w.m w.n)

include h back

theorem primalResidual_eq : primalResidual w₁.data i w.m w.n =
    toVector w₁.scaling.E w.m * primalResidual w.data returned.iterates w.m w.n := by
  have s := back.s
  have x := back.x
  simp only at s x
  rw [primalResidual, primalResidual, h.A, sandwich_mulVec, h.b, x, ← s, mul_sub, mul_add]

theorem dualResidual_eq (symmetric : (w.data.P.storage.toMatrix w.n w.n).IsSymm) :
    dualResidual w₁.data i w.m w.n = w₁.scaling.c •
      (toVector w₁.scaling.D w.n * dualResidual w.data returned.iterates w.m w.n) := by
  have x := back.x
  have mu := back.mu
  simp only at x mu
  rw [dualResidual, dualResidual, h.P, objectivePart_of_symmetric k symmetric, h.A, h.q,
    transpose_sandwich, sandwich_mulVec, ← mu, smul_mulVec, sandwich_mulVec, x, mulVec_smul,
    mul_smul_comm, mul_add, mul_add, smul_add, smul_add]

theorem objective_eq (symmetric : (w.data.P.storage.toMatrix w.n w.n).IsSymm) :
    objective w₁.data i w.n = w₁.scaling.c * objective w.data returned.iterates w.n := by
  have x := back.x
  simp only at x
  have quadratic : toVector i.x w.n ⬝ᵥ (w₁.data.P.storage.toMatrix w.n w.n *ᵥ toVector i.x w.n) =
      w₁.scaling.c * (toVector returned.iterates.x w.n ⬝ᵥ
        (w.data.P.storage.toMatrix w.n w.n *ᵥ toVector returned.iterates.x w.n)) := by
    rw [h.P, objectivePart_of_symmetric k symmetric, smul_mulVec, sandwich_mulVec, ← x,
      dotProduct_smul, smul_eq_mul, ← mul_dotProduct, ← x]
  have linear : toVector w₁.data.q w.n ⬝ᵥ toVector i.x w.n =
      w₁.scaling.c * (toVector w.data.q w.n ⬝ᵥ toVector returned.iterates.x w.n) := by
    rw [h.q, smul_dotProduct, smul_eq_mul, mul_dotProduct, ← x]
  rw [objective, objective, quadratic, linear, mul_add, mul_div_assoc]

end Transfer

/-- Factors that are not zero make no residual zero. -/
theorem mul_eq_zero_iff {n : Nat} {d : Fin n → ℝ} (nonzero : ∀ i, d i ≠ 0) (v : Fin n → ℝ) :
    d * v = 0 ↔ v = 0 := by
  simp [funext_iff, nonzero]

theorem Equilibrates.transfers {returned : Workspace ℝ} (h : w.Equilibrates k w₁)
    (back : MapsBack { w₁ with iterates := i } returned w.m w.n)
    (symmetric : (w.data.P.storage.toMatrix w.n w.n).IsSymm) :
    w.Transfers { w₁ with iterates := i } returned := by
  have primal := primalResidual_eq h back
  have dual := dualResidual_eq h back symmetric
  have complementarity := back.complementarity_eq
  have objective := objective_eq h back symmetric
  refine ⟨primal, dual, complementarity, objective, ?_, ?_, ?_⟩
  · rw [primal]
    exact mul_eq_zero_iff h.E_ne_zero _
  · rw [dual, smul_eq_zero_iff_right h.c_ne_zero]
    exact mul_eq_zero_iff h.D_ne_zero _
  · rw [complementarity, mul_eq_zero, or_iff_right h.c_ne_zero]

/-! ## What a solver does -/

/-- Writes iterates into a workspace. -/
noncomputable def solve (i : Iterates ℝ) : Procedure ℝ Unit := do
  assign .x i.x
  assign .s i.s
  assign .mu i.mu

theorem run_solve {r : Run ℝ} {m n : Nat} (old : r.workspace.iterates.Sized m n)
    (new : i.Sized m n) : (solve i).run r = .ok () { r with workspace.iterates := i } := by
  have onX : (overwrite i.x).run r.workspace.iterates.x = .ok () i.x :=
    modify?_of_ok (if_pos (new.x.trans old.x.symm))
  have onS : (overwrite i.s).run r.workspace.iterates.s = .ok () i.s :=
    modify?_of_ok (if_pos (new.s.trans old.s.symm))
  have onMu : (overwrite i.mu).run r.workspace.iterates.mu = .ok () i.mu :=
    modify?_of_ok (if_pos (new.mu.trans old.mu.symm))
  refine bind_of_ok (focus_of_ok (focus_of_ok onX)) ?_
  refine bind_of_ok (focus_of_ok (focus_of_ok onS)) ?_
  exact focus_of_ok (focus_of_ok onMu)

/-- Whatever a solver leaves in an equilibrated workspace satisfies the conditions of the scaled
problem as far as what is mapped back satisfies those of the given one. -/
theorem optimality_transfers {r : Run ℝ} (valid : r.workspace.Valid)
    (raw : r.workspace.phase = .raw) (small : r.workspace.cones.extent < countLimit)
    (symmetric : (r.workspace.data.P.storage.toMatrix r.workspace.n r.workspace.n).IsSymm)
    {given : Option (Source ℝ)} {s : Settings ℝ}
    (chosen : r.workspace.settings.chosen? given = .ok s)
    {i : Iterates ℝ} (sized : i.Sized r.workspace.m r.workspace.n) :
    ∃ report r₁ r₂ r₃, (equilibrate given).run r = .ok report r₁ ∧
      (solve i).run r₁ = .ok () r₂ ∧ reverse.run r₂ = .ok () r₃ ∧
        r₂.workspace = { r₁.workspace with iterates := i } ∧
          r.workspace.Transfers r₂.workspace r₃.workspace := by
  have valid' := valid.with_settings s
  obtain ⟨journal, ran⟩ := run_equilibrateChosen_real
    (r := { r with workspace.settings := s }) valid' small
  have equilibrates := equilibrates_equilibrated valid' small
  have solved := run_solve
    (r := ⟨Workspace.equilibrated { r.workspace with settings := s }, journal⟩)
    equilibrates.iterates sized
  have back := run_reverse_of_equilibrated valid' (valid.fits small) sized journal
  have transfers := equilibrates.transfers (equilibrates.mapsBack sized) symmetric
  exact ⟨_, _, _, _, (run_equilibrate_of_chosen raw chosen).trans ran, solved, back, rfl,
    { transfers with }⟩

theorem isSymm_sample_two : ((sample 2).data.P.storage.toMatrix 2 2).IsSymm := by
  ext i j
  fin_cases i <;> fin_cases j <;>
    simp [sample, Storage.toMatrix, Storage.value, Storage.entry, Storage.sliceEntry] <;> norm_num

theorem optimality_transfers_sample :
    ∃ report r₁ r₂ r₃, (equilibrate none).run ⟨sample 2, #[]⟩ = .ok report r₁ ∧
      (solve ⟨#[3, -1], #[1, 0, 2, 5], #[0, 1, -1, 2]⟩).run r₁ = .ok () r₂ ∧
        reverse.run r₂ = .ok () r₃ ∧
          r₂.workspace = { r₁.workspace with
            iterates := ⟨#[3, -1], #[1, 0, 2, 5], #[0, 1, -1, 2]⟩ } ∧
            (sample 2).Transfers r₂.workspace r₃.workspace :=
  optimality_transfers (r := ⟨sample 2, #[]⟩) (s := .standard) (valid_sample 2) rfl
    (by rw [extent_sample]; decide) isSymm_sample_two rfl ⟨rfl, rfl, rfl⟩

end Workspace

end ConicScaling
