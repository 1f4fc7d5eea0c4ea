import ConicScaling.Proofs.Convergence
import ConicScaling.Proofs.Evenness
import ConicScaling.Proofs.Optimality

/-!
# Zeros

All weights are positive, so scaling neither makes an entry zero nor stops it from being zero. A
line of zeros has norm zero in every pass, so its factor stays one. Only the rectification can move
the factor of a row of zeros, if the row belongs to a set that needs its rows scaled alike.
-/
namespace ConicScaling

open Matrix

/-! ## Lines of zeros -/

namespace Data

/-- Whether a line, which is a column of `P` on top of `A` or a row of `A`, holds only zeros. -/
def Vanishes (d : Data (DataMatrix ℝ) ℝ) (v : Nat ⊕ Nat) : Prop := ∀ u, d.kkt u v = 0

variable {d : Data (DataMatrix ℝ) ℝ} {m n : Nat} {v : Nat ⊕ Nat}

theorem Vanishes.lineNorm_eq_zero (h : d.Vanishes v) (shaped : d.Shaped m n)
    (canonical : d.Canonical) : d.lineNorm v = 0 := by
  refine le_antisymm ?_ (lineNorm_nonneg shaped canonical v)
  rw [lineNorm_le_iff shaped canonical]
  exact ⟨le_rfl, fun u => by rw [h u, abs_zero]⟩

theorem Vanishes.weighted (h : d.Vanishes v) (D E : Nat → ℝ) (c : ℝ) :
    (d.weighted D E c).Vanishes v := by
  intro u
  have old := h u
  rcases u with i | i <;> rcases v with j | j
  · exact (Storage.value_weighted _ _ i j).trans (mul_eq_zero_of_left old _)
  · exact (Storage.value_weighted _ _ j i).trans (mul_eq_zero_of_left old _)
  · exact (Storage.value_weighted _ _ i j).trans (mul_eq_zero_of_left old _)
  · rfl

/-- A column is a line of zeros if it is one within the matrices. -/
theorem vanishes_column (shaped : d.Shaped m n) {j : Fin n}
    (zero : (fromRows (d.P.storage.toMatrix n n) (d.A.storage.toMatrix m n)).col j = 0) :
    d.Vanishes (.inl j) := by
  have inside := congrFun zero
  rw [Sum.forall] at inside
  have inP := (shaped.wellFormedP.forall_row_iff (p := (· = 0)) rfl shaped.rowsP j).2 inside.1
  have inA := (shaped.wellFormedA.forall_row_iff (p := (· = 0)) rfl shaped.rowsA j).2 inside.2
  exact Sum.forall.2 ⟨inP, inA⟩

theorem vanishes_row (shaped : d.Shaped m n) {i : Fin m}
    (zero : (d.A.storage.toMatrix m n).row i = 0) : d.Vanishes (.inr i) := by
  have inA := (shaped.wellFormedA.forall_column_iff (p := (· = 0)) rfl shaped.columnsA i).2
    (congrFun zero)
  exact Sum.forall.2 ⟨inA, fun _ => rfl⟩

end Data

/-! ## Factors of lines of zeros -/

/-- Whether a row belongs to an elementary set that needs its rows scaled alike. -/
def Cone.Ties (c : Cone ℝ) (k : Nat) : Prop :=
  ∃ i b, (i, b) ∈ c.placed ∧ b.uniformScaling = true ∧ i ≤ k ∧ k < i + b.dim

/-- Rows that are not tied to others are not corrected. -/
theorem Cone.weight_corrections {c : Cone ℝ} {e : Array ℝ} (small : c.extent < countLimit)
    (size : e.size = c.extent) (positive : ∀ x ∈ e, 0 < x) {i : Nat} (free : ¬ c.Ties i) :
    (Diagonal.entries (c.corrections e).2).weight i = 1 := by
  by_cases inside : i < (c.corrections e).2.size
  · rw [Diagonal.weight_eq _ inside]
    refine (rectifies_corrections small size positive).untouched i inside ?_
    exact fun k b ⟨placed, needed, _⟩ within => free ⟨k, b, placed, needed, within⟩
  · simp [Diagonal.weight, inside]

namespace Stage

/-- What a line has been multiplied by so far. -/
noncomputable def weight (s : Stage ℝ) : Nat ⊕ Nat → ℝ
  | .inl j => (Diagonal.entries s.D).weight j
  | .inr i => (Diagonal.entries s.E).weight i

variable {s : Stage ℝ} {d : Data (DataMatrix ℝ) ℝ} {m n : Nat} {v : Nat ⊕ Nat}

theorem weight_start (d : Data (DataMatrix ℝ) ℝ) (v : Nat ⊕ Nat) : (start d).weight v = 1 := by
  cases v <;> exact weight_ones _ _

theorem weight_recosted (l : Limiter ℝ) (s : Stage ℝ) : (s.recosted l).weight = s.weight := by
  unfold recosted
  split <;> rfl

theorem Shaped.weight_balanced (h : s.Shaped m n) {l : Limiter ℝ} (proper : l.Proper)
    (v : Nat ⊕ Nat) : (s.balanced l).weight v = s.weight v * s.factor l v := by
  cases v with
  | inl j =>
    have columns := Diagonal.weight_times ((h.size_columnFactors l).trans h.sizeD.symm)
    exact (congrFun columns j).trans (congrArg _ (proper.weight_factors _ j))
  | inr i =>
    have rows := Diagonal.weight_times ((h.size_rowFactors l).trans h.sizeE.symm)
    exact (congrFun rows i).trans (congrArg _ (proper.weight_factors _ i))

namespace Composed

variable (h : s.Composed d m n) (canonical : d.Canonical) {l : Limiter ℝ} (proper : l.Proper)
  (zero : d.Vanishes v)

include h canonical proper zero

/-- The norm of a line of zeros tells nothing, so it is not divided. -/
theorem factor_of_vanishes : s.factor l v = 1 := by
  have zero' : s.data.Vanishes v := by
    rw [h.data]
    exact zero.weighted _ _ _
  rw [factor, zero'.lineNorm_eq_zero h.shaped.data (canonical.of_composed h), proper.limit_zero,
    Real.sqrt_one, inv_one]

theorem weight_pass_of_vanishes : (s.pass l).weight v = s.weight v := by
  rw [Stage.pass, weight_recosted, h.shaped.weight_balanced proper,
    h.factor_of_vanishes canonical proper zero, mul_one]

theorem weight_passes_of_vanishes (k : Nat) : (s.passes l k).weight v = s.weight v := by
  induction k generalizing s with
  | zero => rfl
  | succ k ih => exact (ih (h.pass proper)).trans (h.weight_pass_of_vanishes canonical proper zero)

end Composed

/-- The rectification keeps the factors of rows that are not tied to others. -/
theorem weight_rectified {cones : Cone ℝ} (small : cones.extent < countLimit)
    (size : s.E.size = cones.extent) (positive : ∀ x ∈ s.E, 0 < x) {i : Nat}
    (free : ¬ cones.Ties i) : (s.rectified cones).weight (.inr i) = s.weight (.inr i) := by
  unfold rectified
  cases found : s.correction? cones with
  | none => rfl
  | some e =>
    have same := eq_of_correction? found
    have length : e.size = s.E.size := by simp [same, Cone.corrections]
    refine (congrFun (Diagonal.weight_times length) i).trans ?_
    rw [same, Cone.weight_corrections small size positive free, mul_one]
    rfl

end Stage

/-! ## The whole procedure -/

/-- Whether two problems have their zeros at the same places. -/
structure Data.SameZeros (d e : Data (DataMatrix ℝ) ℝ) (m n : Nat) : Prop where
  P : ∀ i j, e.P.storage.toMatrix n n i j = 0 ↔ d.P.storage.toMatrix n n i j = 0
  A : ∀ i j, e.A.storage.toMatrix m n i j = 0 ↔ d.A.storage.toMatrix m n i j = 0
  q : ∀ j, toVector e.q n j = 0 ↔ toVector d.q n j = 0
  b : ∀ i, toVector e.b m i = 0 ↔ toVector d.b m i = 0

theorem sandwich_apply_eq_zero_iff {m n : Nat} {E : Fin m → ℝ} {D : Fin n → ℝ}
    (left : ∀ i, E i ≠ 0) (right : ∀ j, D j ≠ 0) (M : Matrix (Fin m) (Fin n) ℝ) (i : Fin m)
    (j : Fin n) : (diagonal E * M * diagonal D) i j = 0 ↔ M i j = 0 := by
  simp [mul_diagonal, diagonal_mul, left i, right j]

namespace Workspace

/-- What one workspace has of the zeros of another: the same entries are zero, and no factor was
found for lines of zeros, except for rows that are scaled along with others. -/
structure KeepsZeros (w w' : Workspace ℝ) : Prop where
  data : w.data.SameZeros w'.data w.m w.n
  D : ∀ j, (fromRows (w.data.P.storage.toMatrix w.n w.n)
    (w.data.A.storage.toMatrix w.m w.n)).col j = 0 → toVector w'.scaling.D w.n j = 1
  E : ∀ i : Fin w.m, (w.data.A.storage.toMatrix w.m w.n).row i = 0 → ¬ w.cones.Ties i →
    toVector w'.scaling.E w.m i = 1

variable {w : Workspace ℝ}

theorem Equilibrates.sameZeros {w' : Workspace ℝ} {k : Nat} (h : w.Equilibrates k w')
    (symmetric : (w.data.P.storage.toMatrix w.n w.n).IsSymm) :
    w.data.SameZeros w'.data w.m w.n where
  P i j := by
    rw [h.P, objectivePart_of_symmetric k symmetric, Matrix.smul_apply, smul_eq_zero_iff_right
      h.c_ne_zero]
    exact sandwich_apply_eq_zero_iff h.D_ne_zero h.D_ne_zero _ i j
  A i j := by
    rw [h.A]
    exact sandwich_apply_eq_zero_iff h.E_ne_zero h.D_ne_zero _ i j
  q j := by
    simp [h.q, h.c_ne_zero, h.D_ne_zero j]
  b i := by
    simp [h.b, h.E_ne_zero i]

/-- Mapping the data back restores their zeros, and without it they stay where they are. -/
theorem Restores.sameZeros {w₁ w₂ : Workspace ℝ} {k : Nat} {flag : Bool}
    (h : w.Restores k flag w₁ w₂) (symmetric : (w.data.P.storage.toMatrix w.n w.n).IsSymm)
    (scaled : w.data.SameZeros w₁.data w.m w.n) : w.data.SameZeros w₂.data w.m w.n := by
  cases flag with
  | true =>
    constructor
    case P =>
      rw [h.P rfl (.inr symmetric)]
      exact fun _ _ => Iff.rfl
    case A =>
      rw [h.A rfl]
      exact fun _ _ => Iff.rfl
    case q =>
      rw [h.q rfl]
      exact fun _ => Iff.rfl
    case b =>
      rw [h.b rfl]
      exact fun _ => Iff.rfl
  | false =>
    rw [(h.unchanged Bool.false_ne_true).1]
    exact scaled

section Final

variable (valid : w.Valid) (canonical : w.data.Canonical)

include valid canonical

theorem D_final_of_vanishes (j : Fin w.n) (zero : w.data.Vanishes (.inl j)) :
    toVector w.final.D w.n j = 1 := by
  have composed := Stage.composed_start valid.data
  have kept := composed.weight_passes_of_vanishes canonical w.settings.proper zero
    w.settings.passes
  rw [toVector_eq_weight valid.shaped_final.sizeD, final, Stage.D_finished]
  exact kept.trans (Stage.weight_start _ _)

theorem E_final_of_vanishes (small : w.cones.extent < countLimit) (i : Fin w.m)
    (zero : w.data.Vanishes (.inr i)) (free : ¬ w.cones.Ties i) :
    toVector w.final.E w.m i = 1 := by
  have composed := Stage.composed_start valid.data
  have last := composed.passes w.settings.proper w.settings.passes
  have size := last.shaped.sizeE.trans (valid.extent small).symm
  have kept := composed.weight_passes_of_vanishes canonical w.settings.proper zero
    w.settings.passes
  rw [toVector_eq_weight valid.shaped_final.sizeE, final, Stage.E_finished]
  exact (Stage.weight_rectified small size last.E_pos free).trans
    (kept.trans (Stage.weight_start _ _))

end Final

/-- Equilibrating a raw workspace and mapping it back keep the zeros of the data where they are, and
lines of zeros keep the factor one. -/
theorem equilibrate_keeps_zeros {r : Run ℝ} (valid : r.workspace.Valid)
    (canonical : r.workspace.data.Canonical) (raw : r.workspace.phase = .raw)
    (small : r.workspace.cones.extent < countLimit)
    (symmetric : (r.workspace.data.P.storage.toMatrix r.workspace.n r.workspace.n).IsSymm)
    {given : Option (Source ℝ)} {s : Settings ℝ}
    (chosen : r.workspace.settings.chosen? given = .ok s) :
    ∃ report r₁ r₂, (equilibrate given).run r = .ok report r₁ ∧ reverse.run r₁ = .ok () r₂ ∧
      r.workspace.KeepsZeros r₁.workspace ∧ r.workspace.KeepsZeros r₂.workspace := by
  have valid' := valid.with_settings s
  obtain ⟨journal, ran⟩ := run_equilibrateChosen_real
    (r := { r with workspace.settings := s }) valid' small
  have equilibrates := equilibrates_equilibrated valid' small
  have restores := restores_returned valid' small
  have back := run_reverse_of_equilibrated valid' (valid.fits small) equilibrates.iterates journal
  have scaled := equilibrates.sameZeros symmetric
  have returned := restores.sameZeros symmetric scaled
  have onD j zero :=
    D_final_of_vanishes valid' canonical j (Data.vanishes_column valid.data zero)
  have onE i zero :=
    E_final_of_vanishes valid' canonical small i (Data.vanishes_row valid.data zero)
  exact ⟨_, _, _, (run_equilibrate_of_chosen raw chosen).trans ran, back,
    ⟨scaled, onD, onE⟩, ⟨returned, onD, onE⟩⟩

/-- A problem whose second column is zero in `P` and in `A`. The second row of `A` stores a zero and
the last row nothing, but the last row is in a second-order cone. -/
noncomputable def hollow (a : ℝ) : Workspace ℝ where
  data :=
    { P := ⟨.double, .sparse .column 2 #[[(0, a)], []]⟩
      A := ⟨.double, .sparse .row 2 #[[(0, 1)], [(1, 0)], [(0, -a)], []]⟩
      q := #[1, 0]
      b := #[0, 1, a, 0] }
  cones := .product [.block (.box #[-1, 0] #[1, 0]), .block (.secondOrder 2)]
  settings := .standard
  scaling := .identity 2 4
  iterates := .zeros 2 4
  phase := .raw

theorem valid_hollow (a : ℝ) : (hollow a).Valid where
  data := by
    constructor <;> simp [hollow, Storage.WellFormed, Storage.count, m, n]
  scaling := by constructor <;> rfl
  iterates := by constructor <;> rfl
  dim := rfl
  balanced := by
    intro b hb
    simp only [hollow, Cone.leaves, Cone.leavesOf, List.cons_append, List.nil_append,
      List.append_nil, List.mem_cons, List.not_mem_nil, or_false] at hb
    rcases hb with rfl | rfl
    · rfl
    · trivial

theorem canonical_hollow (a : ℝ) : (hollow a).data.Canonical := by
  constructor <;> simp [hollow, Storage.EverySlice, Slice.Canonical]

theorem isSymm_hollow (a : ℝ) : ((hollow a).data.P.storage.toMatrix 2 2).IsSymm := by
  ext i j
  fin_cases i <;> fin_cases j <;>
    simp [hollow, Storage.toMatrix, Storage.value, Storage.entry, Storage.sliceEntry]

theorem equilibrate_keeps_zeros_hollow :
    ∃ report r₁ r₂, (equilibrate none).run ⟨hollow 3, #[]⟩ = .ok report r₁ ∧
      reverse.run r₁ = .ok () r₂ ∧ (hollow 3).KeepsZeros r₁.workspace ∧
        (hollow 3).KeepsZeros r₂.workspace :=
  equilibrate_keeps_zeros (r := ⟨hollow 3, #[]⟩) (s := .standard) (valid_hollow 3)
    (canonical_hollow 3) rfl
    (by decide) (isSymm_hollow 3) rfl

end Workspace

end ConicScaling
