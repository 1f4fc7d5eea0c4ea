import ConicScaling.Proofs.Composition
import ConicScaling.Proofs.Outcome

/-!
# The transform of a problem

In exact arithmetic equilibration replaces `P` by `c · D · S · D`, where `S` is the symmetric part,
`q` by `c · D · q`, `A` by `E · A · D` and `b` by `E · b`. Boxes and iterates follow, and the stored
inverses are inverses.
-/
namespace ConicScaling

open Matrix

/-! ## Matrices and vectors -/

namespace Storage

/-- The matrix that is stored. -/
noncomputable def toMatrix (S : Storage ℝ) (m n : Nat) : Matrix (Fin m) (Fin n) ℝ :=
  Matrix.of fun i j => S.value i j

theorem toMatrix_apply (S : Storage ℝ) (m n : Nat) (i : Fin m) (j : Fin n) :
    S.toMatrix m n i j = S.value i j := rfl

/-- Weights that are products of a weight for the row and one for the column. -/
theorem toMatrix_weighted (S : Storage ℝ) {m n : Nat} (E : Fin m → ℝ) (D : Fin n → ℝ)
    {f : Nat → Nat → ℝ} (h : ∀ (i : Fin m) (j : Fin n), f i j = E i * D j) :
    (S.weighted f).toMatrix m n = diagonal E * S.toMatrix m n * diagonal D := by
  ext i j
  rw [mul_diagonal, diagonal_mul, toMatrix_apply, toMatrix_apply, value_weighted, h]
  ring

end Storage

/-- The first `n` entries. -/
def toVector (v : Array ℝ) (n : Nat) : Fin n → ℝ := fun i => v.getD i 0

theorem toVector_weightedVector (f : Nat → ℝ) (v : Array ℝ) {n : Nat} (i : Fin n) :
    toVector (weightedVector f v) n i = toVector v n i * f i :=
  getD_weightedVector f v i

theorem toVector_eq_weight {v : Array ℝ} {n : Nat} (size : v.size = n) (i : Fin n) :
    toVector v n i = (Diagonal.entries v).weight i := by
  have inside : (i : Nat) < v.size := size ▸ i.isLt
  simp [toVector, Diagonal.weight, inside]

theorem toVector_times {d v : Array ℝ} {n : Nat} (left : d.size = n) (right : v.size = n) :
    toVector (Diagonal.times d v) n = toVector d n * toVector v n := by
  rw [mul_comm]
  funext i
  simp [toVector, Diagonal.times, left, right]

theorem toVector_map_mul (c : ℝ) (v : Array ℝ) (n : Nat) :
    toVector (v.map (· * c)) n = c • toVector v n := by
  funext i
  by_cases h : (i : Nat) < v.size <;> simp [toVector, h, mul_comm]

theorem toVector_map_reciprocal {v : Array ℝ} {n : Nat} (size : v.size = n) :
    toVector (v.map Scalar.reciprocal) n = (toVector v n)⁻¹ := by
  funext i
  simp [toVector, size]

theorem toVector_ne_zero {v : Array ℝ} {n : Nat} (size : v.size = n) (positive : ∀ x ∈ v, 0 < x)
    (i : Fin n) : toVector v n i ≠ 0 := by
  rw [toVector_eq_weight size]
  exact (Stage.weight_pos positive i).ne'

theorem toVector_mul_reciprocal {v : Array ℝ} {n : Nat} (size : v.size = n)
    (positive : ∀ x ∈ v, 0 < x) : toVector v n * toVector (v.map Scalar.reciprocal) n = 1 := by
  rw [toVector_map_reciprocal size]
  funext i
  exact mul_inv_cancel₀ (toVector_ne_zero size positive i)

/-! ## Objectives -/

noncomputable def objective (d : Data (DataMatrix ℝ) ℝ) (i : Iterates ℝ) (n : Nat) : ℝ :=
  toVector i.x n ⬝ᵥ (d.P.storage.toMatrix n n *ᵥ toVector i.x n) / 2 +
    toVector d.q n ⬝ᵥ toVector i.x n

/-- The matrix whose multiple equilibration leaves: `P` itself without a pass, and the symmetric
part otherwise. -/
noncomputable def objectivePart {n : Nat} (k : Nat) (P : Matrix (Fin n) (Fin n) ℝ) :
    Matrix (Fin n) (Fin n) ℝ :=
  if k = 0 then P else (2 : ℝ)⁻¹ • (P + Pᵀ)

theorem objectivePart_apply {n : Nat} (k : Nat) (P : Matrix (Fin n) (Fin n) ℝ) (i j : Fin n) :
    objectivePart k P i j = if k = 0 then P i j else (P i j + P j i) / 2 := by
  unfold objectivePart
  split
  · rfl
  · simp [div_eq_inv_mul]

theorem objectivePart_of_symmetric {n : Nat} (k : Nat) {P : Matrix (Fin n) (Fin n) ℝ}
    (h : P.IsSymm) : objectivePart k P = P := by
  unfold objectivePart
  split
  · rfl
  · rw [h.eq, ← two_smul ℝ P, smul_smul, inv_mul_cancel₀ two_ne_zero, one_smul]

theorem Storage.isSymm_toMatrix {S : Storage ℝ} {n : Nat} (h : S.WellFormed)
    (rows : S.count .row = n) (columns : S.count .column = n) :
    (S.toMatrix n n).IsSymm ↔ ∀ i j, S.value i j = S.value j i := by
  constructor
  · intro symmetric i j
    by_cases inside : i < n ∧ j < n
    · exact symmetric.apply ⟨j, inside.2⟩ ⟨i, inside.1⟩
    · -- beyond its lines a matrix is zero
      rw [h.value_of_le (by omega), h.value_of_le (by omega)]
  · intro symmetric
    ext i j
    exact symmetric j i

namespace Workspace

/-- What equilibration with `k` passes makes of one workspace is the other. -/
structure Equilibrates (w : Workspace ℝ) (k : Nat) (w' : Workspace ℝ) : Prop where
  phase : w'.phase = .scaled
  data : w'.data.Shaped w.m w.n
  scaling : w'.scaling.Sized w.m w.n
  iterates : w'.iterates.Sized w.m w.n
  A : w'.data.A.storage.toMatrix w.m w.n =
    diagonal (toVector w'.scaling.E w.m) * w.data.A.storage.toMatrix w.m w.n *
      diagonal (toVector w'.scaling.D w.n)
  q : toVector w'.data.q w.n =
    w'.scaling.c • (toVector w'.scaling.D w.n * toVector w.data.q w.n)
  b : toVector w'.data.b w.m = toVector w'.scaling.E w.m * toVector w.data.b w.m
  P : w'.data.P.storage.toMatrix w.n w.n =
    w'.scaling.c • (diagonal (toVector w'.scaling.D w.n) *
      objectivePart k (w.data.P.storage.toMatrix w.n w.n) *
        diagonal (toVector w'.scaling.D w.n))
  /-- Each box has its bounds multiplied by the factors of its own rows. -/
  boxes : w'.cones.placed =
    w.cones.placed.map fun (i, b) => (i, b.scaled (w'.scaling.E.extract i (i + b.dim)))
  x : toVector w'.iterates.x w.n = toVector w.iterates.x w.n / toVector w'.scaling.D w.n
  s : toVector w'.iterates.s w.m = toVector w'.scaling.E w.m * toVector w.iterates.s w.m
  mu : toVector w'.iterates.mu w.m =
    w'.scaling.c • (toVector w.iterates.mu w.m / toVector w'.scaling.E w.m)
  D_mul_Dinv : toVector w'.scaling.D w.n * toVector w'.scaling.Dinv w.n = 1
  E_mul_Einv : toVector w'.scaling.E w.m * toVector w'.scaling.Einv w.m = 1
  c_mul_cinv : w'.scaling.c * w'.scaling.cinv = 1

variable {w : Workspace ℝ}

theorem Valid.finished (valid : w.Valid) :
    w.final.Finished w.data w.settings.passes w.m w.n :=
  Stage.finished_start w.settings.proper valid.data _ _

/-- With the settings in place, equilibration reaches its end and scales as it should. -/
theorem equilibrates_equilibrated (valid : w.Valid) (small : w.cones.extent < countLimit) :
    w.Equilibrates w.settings.passes w.equilibrated := by
  have finished := valid.finished
  have sizeD := finished.shaped.sizeD
  have sizeE := finished.shaped.sizeE
  have sized := valid.sized_scaledTo
  have onD (j : Fin w.n) := toVector_eq_weight sizeD j
  have onE (i : Fin w.m) := toVector_eq_weight sizeE i
  constructor
  case phase => rfl
  case data => exact finished.shaped.data
  case scaling => exact ⟨sized.D, sized.E, sized.Dinv, sized.Einv⟩
  case iterates => exact sized_scaledIterates sized valid.iterates
  case A =>
    rw [show w.equilibrated.data.A = _ from finished.A]
    refine Storage.toMatrix_weighted _ _ _ fun i j => ?_
    rw [← onD, ← onE]
    rfl
  case q =>
    rw [show w.equilibrated.data.q = _ from finished.q]
    funext j
    simp only [Stage.weigh, Data.weighted, toVector_weightedVector, ← onD]
    simp only [Pi.smul_apply, Pi.mul_apply, smul_eq_mul]
    exact mul_comm _ _ |>.trans (mul_assoc _ _ _)
  case b =>
    rw [show w.equilibrated.data.b = _ from finished.b]
    funext i
    simp only [Stage.weigh, Data.weighted, toVector_weightedVector, ← onE]
    exact mul_comm _ _
  case P =>
    ext i j
    rw [Matrix.smul_apply, mul_diagonal, diagonal_mul, objectivePart_apply, Storage.toMatrix_apply]
    refine (finished.value_P i j).trans ?_
    rw [← onD, ← onD, smul_eq_mul]
    simp only [Storage.toMatrix_apply, equilibrated, scaledTo, reached]
    ring
  case boxes =>
    exact Cone.placed_scaled (sizeE.trans (valid.extent small).symm) small
  case x =>
    refine (toVector_times sized.Dinv valid.iterates.x).trans ?_
    rw [div_eq_inv_mul]
    exact congrArg (· * _) (toVector_map_reciprocal sizeD)
  case s => exact toVector_times sized.E valid.iterates.s
  case mu =>
    refine (toVector_map_mul _ _ _).trans (congrArg _ ?_)
    refine (toVector_times sized.Einv valid.iterates.mu).trans ?_
    rw [div_eq_inv_mul]
    exact congrArg (· * _) (toVector_map_reciprocal sizeE)
  case D_mul_Dinv => exact toVector_mul_reciprocal sizeD finished.D_pos
  case E_mul_Einv => exact toVector_mul_reciprocal sizeE finished.E_pos
  case c_mul_cinv => exact mul_one_div_cancel finished.cost_pos.ne'

/-- The cost factor is a product of positive numbers. -/
theorem Valid.cost_final (valid : w.Valid) :
    Scalar.same w.final.progress.cost 0 = false := by
  simpa using valid.finished.cost_pos.ne'

theorem run_equilibrateChosen_real {r : Run ℝ} (valid : r.workspace.Valid)
    (small : r.workspace.cones.extent < countLimit) :
    ∃ journal, equilibrateChosen.run r =
      .ok r.workspace.report ⟨r.workspace.equilibrated, journal⟩ :=
  run_equilibrateChosen_of_nonzero valid (valid.fits small) valid.cost_final

/-- Equilibrating a raw workspace in exact arithmetic, with settings that are accepted. -/
theorem run_equilibrate_of_fits {r : Run ℝ} (valid : r.workspace.Valid)
    (raw : r.workspace.phase = .raw) (fits : r.workspace.cones.Fits r.workspace.m)
    {given : Option (Source ℝ)} {s : Settings ℝ}
    (chosen : r.workspace.settings.chosen? given = .ok s) :
    ∃ report journal, (equilibrate given).run r =
      .ok report ⟨{ r.workspace with settings := s }.equilibrated, journal⟩ :=
  run_equilibrate_of_nonzero valid raw fits chosen (valid.with_settings s).cost_final

/-! ## The whole procedure -/

/-- A problem with two variables and four rows. `P` stores a position twice and is symmetric for
`a = 2` only, and a box stands before a nested product. -/
noncomputable def sample (a : ℝ) : Workspace ℝ where
  data :=
    { P := ⟨.double, .sparse .column 2 #[[(0, 4), (1, a)], [(0, 3), (1, 9), (0, -1)]]⟩
      A := ⟨.double, .sparse .row 2 #[[(0, 1)], [(1, 2)], [(1, -1), (0, 3)], []]⟩
      q := #[1, -2]
      b := #[1, 0, 2, 3] }
  cones := .product [.block (.box #[-1] #[1]),
    .product [.block (.secondOrder 2), .block (.nonnegative 1)]]
  settings := .standard
  scaling := .identity 2 4
  iterates := ⟨#[1, 1], #[0, 1, 2, 3], #[1, 1, 1, 1]⟩
  phase := .raw

theorem extent_sample (a : ℝ) : (sample a).cones.extent = 4 := rfl

theorem valid_sample (a : ℝ) : (sample a).Valid where
  data := by
    constructor <;> simp [sample, Storage.WellFormed, Storage.count, m, n] <;> grind
  scaling := by constructor <;> rfl
  iterates := by constructor <;> rfl
  dim := Cone.dim_eq_extent (c := (sample a).cones) (by simp [extent_sample, countLimit])
  balanced := by
    intro b hb
    simp only [sample, Cone.leaves, Cone.leavesOf, List.cons_append, List.nil_append,
      List.append_nil, List.mem_cons, List.not_mem_nil, or_false] at hb
    rcases hb with rfl | rfl | rfl
    · rfl
    · trivial
    · trivial

/-- Equilibrating a raw workspace succeeds and scales it by the factors that it then holds. -/
theorem equilibrate_composes {r : Run ℝ} (valid : r.workspace.Valid)
    (raw : r.workspace.phase = .raw) (small : r.workspace.cones.extent < countLimit)
    {given : Option (Source ℝ)} {s : Settings ℝ}
    (chosen : r.workspace.settings.chosen? given = .ok s) :
    ∃ report r', (equilibrate given).run r = .ok report r' ∧
      r.workspace.Equilibrates s.passes r'.workspace := by
  have valid' := valid.with_settings s
  obtain ⟨journal, ran⟩ := run_equilibrateChosen_real
    (r := { r with workspace.settings := s }) valid' small
  refine ⟨_, _, (run_equilibrate_of_chosen raw chosen).trans ran, ?_⟩
  have equilibrates := equilibrates_equilibrated valid' small
  exact { equilibrates with }

theorem equilibrate_composes_sample :
    ∃ report r', (equilibrate none).run ⟨sample 1, #[]⟩ = .ok report r' ∧
      (sample 1).Equilibrates 10 r'.workspace :=
  equilibrate_composes (r := ⟨sample 1, #[]⟩) (s := .standard) (valid_sample 1) rfl
    (by rw [extent_sample]; decide) rfl

end Workspace

end ConicScaling
