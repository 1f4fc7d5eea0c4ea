import ConicScaling.Proofs.PermutedData
import ConicScaling.Proofs.PermutedSets

/-!
# Relabelling variables and rows

The order of the variables means nothing, and neither does that of the rows of a set that lets every
row have its own factor. So equilibrating a relabelled problem relabels what equilibration finds,
and reports the same.
-/
namespace ConicScaling

open Matrix

variable {m n : Nat} {columns : Equiv.Perm (Fin n)} {rows : Equiv.Perm (Fin m)}

/-! ## The end of equilibration -/

namespace Stage.Permuted

variable {d e : Data (DataMatrix ℝ) ℝ} {s t : Stage ℝ} (h : s.Permuted columns rows d e t)
  {c c' : Cone ℝ} (cones : c.Permuted rows c') (confined : c.Confines rows)
  (small : c.extent < countLimit) (total : c.extent = m)

include h cones confined small total

theorem correction? : t.correction? c' = s.correction? c := by
  rw [Stage.correction?, Stage.correction?, cones.uniformScaling,
    cones.corrections small total h.left.shaped.sizeE h.right.shaped.sizeE h.E confined]

theorem rectified : (s.rectified c).Permuted columns rows d e (t.rectified c') where
  left := h.left.rectified c
  right := h.right.rectified c'
  D := by
    rw [D_rectified, D_rectified]
    exact h.D
  E := by
    unfold Stage.rectified
    rw [h.correction? cones confined small total]
    cases found : s.correction? c with
    | none => exact h.E
    | some f =>
      have size := h.left.shaped.size_correction found
      have stays : toVector f m = toVector f m ∘ rows := by
        rw [eq_of_correction? found]
        exact (confined.toVector_corrections small total h.left.shaped.sizeE h.left.E_pos).symm
      exact toVector_times_permuted ⟨size, h.left.shaped.sizeE⟩ ⟨size, h.right.shaped.sizeE⟩ stays
        h.E
  progress := by
    rw [progress_rectified, progress_rectified]
    exact h.progress

end Stage.Permuted

/-! ## Workspaces -/

/-- Two scalings with factor `columns j` of the first one at place `j` of the second one, and so
on. -/
structure Scaling.Permuted (columns : Equiv.Perm (Fin n)) (rows : Equiv.Perm (Fin m))
    (s t : Scaling ℝ) : Prop where
  D : toVector t.D n = toVector s.D n ∘ columns
  E : toVector t.E m = toVector s.E m ∘ rows
  Dinv : toVector t.Dinv n = toVector s.Dinv n ∘ columns
  Einv : toVector t.Einv m = toVector s.Einv m ∘ rows
  c : t.c = s.c
  cinv : t.cinv = s.cinv

structure Iterates.Permuted (columns : Equiv.Perm (Fin n)) (rows : Equiv.Perm (Fin m))
    (i j : Iterates ℝ) : Prop where
  x : toVector j.x n = toVector i.x n ∘ columns
  s : toVector j.s m = toVector i.s m ∘ rows
  mu : toVector j.mu m = toVector i.mu m ∘ rows

theorem submatrix_sandwich (E : Fin m → ℝ) (M : Matrix (Fin m) (Fin n) ℝ) (D : Fin n → ℝ) :
    diagonal (E ∘ rows) * M.submatrix rows columns * diagonal (D ∘ columns) =
      (diagonal E * M * diagonal D).submatrix rows columns := by
  ext i j
  simp [mul_diagonal, diagonal_mul]

theorem objectivePart_submatrix (k : Nat) (P : Matrix (Fin n) (Fin n) ℝ) :
    objectivePart k (P.submatrix columns columns) =
      (objectivePart k P).submatrix columns columns := by
  ext i j
  simp [objectivePart_apply]

namespace Workspace

/-- What equilibration leads to is as sound as what it starts from. -/
theorem sound_final {w : Workspace ℝ} (valid : w.Valid) (canonical : w.data.Canonical) :
    w.final.data.Sound w.m w.n := by
  have same (S : Storage ℝ) : S.Alike S := ⟨fun _ => rfl, fun _ _ => rfl⟩
  have self : w.Alike w := ⟨⟨same _, same _, rfl, rfl⟩, rfl, rfl, rfl, rfl, rfl⟩
  exact (self.final ⟨valid.data, canonical⟩ ⟨valid.data, canonical⟩).left

/-- Whether one workspace is another one with its variables and rows in another order. The
matrices may be laid out differently. -/
structure Permuted (columns : Equiv.Perm (Fin n)) (rows : Equiv.Perm (Fin m))
    (w v : Workspace ℝ) : Prop where
  m : w.m = m ∧ v.m = m
  n : w.n = n ∧ v.n = n
  data : w.data.Permuted columns rows v.data
  cones : w.cones.Permuted rows v.cones
  settings : v.settings = w.settings
  iterates : w.iterates.Permuted columns rows v.iterates
  phase : v.phase = w.phase

namespace Permuted

variable {w v : Workspace ℝ} (h : w.Permuted columns rows v)

include h

theorem with_settings (s : Settings ℝ) :
    Permuted columns rows { w with settings := s } { v with settings := s } :=
  { h with settings := rfl }

section Equilibrated

variable (left : w.Valid) (right : v.Valid) (canonical : w.data.Canonical)
  (canonical' : v.data.Canonical)

include left right canonical canonical'

theorem lastPass : w.lastPass.Permuted columns rows w.data v.data v.lastPass := by
  have shaped : w.data.Shaped m n := h.m.1 ▸ h.n.1 ▸ left.data
  have shaped' : v.data.Shaped m n := h.m.2 ▸ h.n.2 ▸ right.data
  rw [Workspace.lastPass, Workspace.lastPass, h.settings]
  exact (Stage.permuted_start shaped shaped').passes h.data canonical canonical'
    w.settings.proper _

variable (small : w.cones.extent < countLimit) (confined : w.cones.Confines rows)

include small confined

theorem scaling_equilibrated :
    w.equilibrated.scaling.Permuted columns rows v.equilibrated.scaling := by
  have total := (left.extent small).trans h.m.1
  have last := h.lastPass left right canonical canonical'
  have rectified := last.rectified h.cones confined small total
  have onD : toVector v.final.D n = toVector w.final.D n ∘ columns := by
    rw [final, final, Stage.D_finished, Stage.D_finished]
    exact last.D
  have onE : toVector v.final.E m = toVector w.final.E m ∘ rows := by
    rw [final, final, Stage.E_finished, Stage.E_finished]
    exact rectified.E
  have progress : v.final.progress = w.final.progress := by
    rw [progress_final, progress_final]
    exact last.progress
  have sizeD := left.shaped_final.sizeD.trans h.n.1
  have sizeD' := right.shaped_final.sizeD.trans h.n.2
  have sizeE := left.shaped_final.sizeE.trans h.m.1
  have sizeE' := right.shaped_final.sizeE.trans h.m.2
  constructor
  case D => exact onD
  case E => exact onE
  case Dinv =>
    refine (toVector_map_reciprocal sizeD').trans ?_
    rw [onD]
    exact congrArg (· ∘ columns) (toVector_map_reciprocal sizeD).symm
  case Einv =>
    refine (toVector_map_reciprocal sizeE').trans ?_
    rw [onE]
    exact congrArg (· ∘ rows) (toVector_map_reciprocal sizeE).symm
  case c => exact congrArg Progress.cost progress
  case cinv => exact congrArg (fun p => 1 / p.cost) progress

end Equilibrated

section Transform

variable {w' v' : Workspace ℝ} {k : Nat} (left : w.Equilibrates k w') (right : v.Equilibrates k v')
  (scaling : w'.scaling.Permuted columns rows v'.scaling)

include left right scaling

/-- Factors that agree up to the order of lines scale problems that do. -/
theorem data_of_equilibrates : w'.data.Permuted columns rows v'.data := by
  obtain ⟨rfl, m'⟩ := h.m
  obtain ⟨rfl, n'⟩ := h.n
  constructor
  case P =>
    have P := right.P
    rw [n', scaling.c, scaling.D, h.data.P, objectivePart_submatrix, submatrix_sandwich] at P
    rw [P, left.P]
    rfl
  case A =>
    have A := right.A
    rw [m', n', scaling.D, scaling.E, h.data.A, submatrix_sandwich] at A
    rw [A, left.A]
  case q =>
    have q := right.q
    rw [n', scaling.c, scaling.D, h.data.q] at q
    rw [q, left.q]
    rfl
  case b =>
    have b := right.b
    rw [m', scaling.E, h.data.b] at b
    rw [b, left.b]
    rfl

theorem iterates_of_equilibrates : w'.iterates.Permuted columns rows v'.iterates := by
  obtain ⟨rfl, m'⟩ := h.m
  obtain ⟨rfl, n'⟩ := h.n
  constructor
  case x =>
    have x := right.x
    rw [n', scaling.D, h.iterates.x] at x
    rw [x, left.x]
    rfl
  case s =>
    have s := right.s
    rw [m', scaling.E, h.iterates.s] at s
    rw [s, left.s]
    rfl
  case mu =>
    have mu := right.mu
    rw [m', scaling.c, scaling.E, h.iterates.mu] at mu
    rw [mu, left.mu]
    rfl

end Transform

section Whole

variable (left : w.Valid) (right : v.Valid) (canonical : w.data.Canonical)
  (canonical' : v.data.Canonical)
  (small : w.cones.extent < countLimit) (confined : w.cones.Confines rows)

include left right canonical canonical' small confined

theorem equilibrated : w.equilibrated.Permuted columns rows v.equilibrated := by
  have small' : v.cones.extent < countLimit := h.cones.extent.trans_lt small
  have total := (left.extent small).trans h.m.1
  have scaling := h.scaling_equilibrated left right canonical canonical' small confined
  have onLeft := equilibrates_equilibrated left small
  have onRight := equilibrates_equilibrated right small'
  rw [h.settings] at onRight
  constructor
  case m => exact ⟨onLeft.data.rowsA.trans h.m.1, onRight.data.rowsA.trans h.m.2⟩
  case n => exact ⟨onLeft.data.columnsA.trans h.n.1, onRight.data.columnsA.trans h.n.2⟩
  case data => exact h.data_of_equilibrates onLeft onRight scaling
  case cones =>
    exact h.cones.scaled small total (onLeft.scaling.E.trans h.m.1)
      (onRight.scaling.E.trans h.m.2) scaling.E confined
  case settings => exact h.settings
  case iterates => exact h.iterates_of_equilibrates onLeft onRight scaling
  case phase => rfl

theorem report : v.report = w.report := by
  have total := (left.extent small).trans h.m.1
  have last := h.lastPass left right canonical canonical'
  have after : w.final.data.Permuted columns rows v.final.data :=
    (h.equilibrated left right canonical canonical' small confined).data
  have before : w.data.Sound m n := h.m.1 ▸ h.n.1 ▸ ⟨left.data, canonical⟩
  have before' : v.data.Sound m n := h.m.2 ▸ h.n.2 ▸ ⟨right.data, canonical'⟩
  have sound : w.final.data.Sound m n :=
    h.m.1 ▸ h.n.1 ▸ sound_final left canonical
  have sound' : v.final.data.Sound m n :=
    h.m.2 ▸ h.n.2 ▸ sound_final right canonical'
  simp only [Workspace.report, h.settings, last.progress,
    last.correction? h.cones confined small total, h.data.spread_columnNorms before before',
    h.data.spread_rowNorms before before', after.spread_columnNorms sound sound',
    after.spread_rowNorms sound sound']

end Whole

end Permuted

/-- Equilibrating the same problem with its variables and its rows in another order, where rows
only trade places within a set that tells them apart by bounds at most, yields the same scaling and
the same problem in that order, and the same report. -/
theorem equilibrate_permuted {r r' : Run ℝ} (left : r.workspace.Valid) (right : r'.workspace.Valid)
    (canonical : r.workspace.data.Canonical) (canonical' : r'.workspace.data.Canonical)
    (raw : r.workspace.phase = .raw) (small : r.workspace.cones.extent < countLimit)
    {columns : Equiv.Perm (Fin r.workspace.n)} {rows : Equiv.Perm (Fin r.workspace.m)}
    (confined : r.workspace.cones.Confines rows)
    (permuted : r.workspace.Permuted columns rows r'.workspace) {given : Option (Source ℝ)}
    {s : Settings ℝ} (chosen : r.workspace.settings.chosen? given = .ok s) :
    ∃ report r₁ r₁', (equilibrate given).run r = .ok report r₁ ∧
      (equilibrate given).run r' = .ok report r₁' ∧
      r₁.workspace.Permuted columns rows r₁'.workspace ∧
      r₁.workspace.scaling.Permuted columns rows r₁'.workspace.scaling := by
  have valid := left.with_settings s
  have valid' := right.with_settings s
  have both := permuted.with_settings s
  have small' : r'.workspace.cones.extent < countLimit := permuted.cones.extent.trans_lt small
  obtain ⟨journal, ran⟩ := run_equilibrateChosen_real
    (r := { r with workspace.settings := s }) valid small
  obtain ⟨journal', ran'⟩ := run_equilibrateChosen_real
    (r := { r' with workspace.settings := s }) valid' small'
  rw [both.report valid valid' canonical canonical' small confined] at ran'
  exact ⟨_, _, _, (run_equilibrate_of_chosen raw chosen).trans ran,
    (run_equilibrate_of_chosen (permuted.phase.trans raw) (permuted.settings ▸ chosen)).trans ran',
    both.equilibrated valid valid' canonical canonical' small confined,
    both.scaling_equilibrated valid valid' canonical canonical' small confined⟩

/-- The problem with its variables swapped, and with the two rows of its box swapped. All of it is
stored densely. -/
noncomputable def hollowSwapped (a : ℝ) : Workspace ℝ where
  data :=
    { P := ⟨.double, .dense 2 #[#[0, 0], #[0, a]]⟩
      A := ⟨.double, .dense 2 #[#[0, 0], #[0, 1], #[0, -a], #[0, 0]]⟩
      q := #[0, 1]
      b := #[1, 0, a, 0] }
  cones := .product [.block (.box #[0, -1] #[0, 1]), .block (.secondOrder 2)]
  settings := .standard
  scaling := .identity 2 4
  iterates := .zeros 2 4
  phase := .raw

theorem valid_hollowSwapped (a : ℝ) : (hollowSwapped a).Valid where
  data := by
    constructor <;>
      simp [hollowSwapped, Storage.WellFormed, Storage.count, Axis.select, m, n]
  scaling := by constructor <;> rfl
  iterates := by constructor <;> rfl
  dim := rfl
  balanced := by
    intro b hb
    simp only [hollowSwapped, Cone.leaves, Cone.leavesOf, List.cons_append, List.nil_append,
      List.append_nil, List.mem_cons, List.not_mem_nil, or_false] at hb
    rcases hb with rfl | rfl
    · rfl
    · trivial

theorem canonical_hollowSwapped (a : ℝ) : (hollowSwapped a).data.Canonical := ⟨trivial, trivial⟩

theorem placed_hollow (a : ℝ) : (hollow a).cones.placed =
    [(0, .box #[-1, 0] #[1, 0]), (2, .secondOrder 2)] := rfl

/-- Only rows of the box trade places. -/
theorem confines_hollow (a : ℝ) : (hollow a).cones.Confines (Equiv.swap (0 : Fin 4) 1) where
  within := by
    intro i b placed k low high
    rw [placed_hollow] at placed
    simp only [List.mem_cons, Prod.mk.injEq, List.not_mem_nil, or_false] at placed
    rcases placed with ⟨rfl, rfl⟩ | ⟨rfl, rfl⟩ <;> revert k <;> simp only [Block.dim] <;> decide
  fixed := by
    rintro k ⟨i, b, placed, needed, low, high⟩
    rw [placed_hollow] at placed
    simp only [List.mem_cons, Prod.mk.injEq, List.not_mem_nil, or_false] at placed
    rcases placed with ⟨rfl, rfl⟩ | ⟨rfl, rfl⟩
    · cases needed
    · revert k
      simp only [Block.dim]
      decide

theorem permuted_hollowSwapped (a : ℝ) :
    (hollow a).Permuted (Equiv.swap (0 : Fin 2) 1) (Equiv.swap (0 : Fin 4) 1)
      (hollowSwapped a) where
  m := ⟨rfl, rfl⟩
  n := ⟨rfl, rfl⟩
  data := by
    constructor
    case P =>
      ext i j
      fin_cases i <;> fin_cases j <;> simp [hollow, hollowSwapped, Storage.toMatrix, Storage.value,
        Storage.entry, Storage.sliceEntry]
    case A =>
      ext i j
      fin_cases i <;> fin_cases j <;> simp [hollow, hollowSwapped, Storage.toMatrix, Storage.value,
        Storage.entry, Storage.sliceEntry, Equiv.swap_apply_def]
    case q => ext j; fin_cases j <;> simp [hollow, hollowSwapped, toVector]
    case b => ext i; fin_cases i <;> simp [hollow, hollowSwapped, toVector, Equiv.swap_apply_def]
  cones := by
    refine .cons ⟨rfl, .box rfl rfl fun k low high => ?_⟩ (.cons ⟨rfl, .same rfl⟩ .nil)
    fin_cases k <;> simp_all
  settings := rfl
  iterates := by
    have zero (k : Nat) : toVector (Array.replicate k (0 : ℝ)) k = 0 := by
      funext j
      simp [toVector]
    constructor
    case x => exact (zero 2).trans (congrArg (· ∘ _) (zero 2).symm)
    case s => exact (zero 4).trans (congrArg (· ∘ _) (zero 4).symm)
    case mu => exact (zero 4).trans (congrArg (· ∘ _) (zero 4).symm)
  phase := rfl

theorem equilibrate_permuted_hollow :
    ∃ report r₁ r₁', (equilibrate none).run ⟨hollow 3, #[]⟩ = .ok report r₁ ∧
      (equilibrate none).run ⟨hollowSwapped 3, #[]⟩ = .ok report r₁' ∧
      r₁.workspace.Permuted (Equiv.swap (0 : Fin 2) 1) (Equiv.swap (0 : Fin 4) 1) r₁'.workspace ∧
      r₁.workspace.scaling.Permuted (Equiv.swap (0 : Fin 2) 1) (Equiv.swap (0 : Fin 4) 1)
        r₁'.workspace.scaling :=
  equilibrate_permuted (s := .standard) (valid_hollow 3) (valid_hollowSwapped 3)
    (canonical_hollow 3) (canonical_hollowSwapped 3) rfl (by decide) (confines_hollow 3)
    (permuted_hollowSwapped 3) rfl

end Workspace

end ConicScaling
