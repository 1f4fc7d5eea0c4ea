import ConicScaling.Proofs.Backward
import ConicScaling.Proofs.Norms

/-!
# Layouts

Two matrices are alike when they denote the same entries, whatever their layouts are. Norms and the
test for symmetry only see what is denoted as long as no position is stored twice, and weights and
the symmetric part change what is denoted in the same way. So stages that start from data that are
alike stay alike, with the same factors, to the end of equilibration and on the way back.
-/
namespace ConicScaling

namespace Storage

/-- Whether two matrices have the same size and denote the same entries. -/
structure Alike (S T : Storage ℝ) : Prop where
  count : ∀ axis, S.count axis = T.count axis
  value : ∀ i j, S.value i j = T.value i j

variable {S T U : Storage ℝ}

theorem Alike.symm (h : S.Alike T) : T.Alike S :=
  ⟨fun axis => (h.count axis).symm, fun i j => (h.value i j).symm⟩

theorem Alike.trans (h : S.Alike T) (h' : T.Alike U) : S.Alike U :=
  ⟨fun axis => (h.count axis).trans (h'.count axis), fun i j => (h.value i j).trans (h'.value i j)⟩

theorem Alike.shape (h : S.Alike T) : S.shape = T.shape := by
  simp only [Storage.shape, h.count]

theorem Alike.weighted (h : S.Alike T) (f : Nat → Nat → ℝ) :
    (S.weighted f).Alike (T.weighted f) where
  count axis := by simp [h.count]
  value i j := by rw [value_weighted, value_weighted, h.value]

end Storage

namespace DataMatrix

variable {M N : DataMatrix ℝ}

theorem isSymmetric_of_alike (h : M.storage.Alike N.storage) : M.isSymmetric = N.isSymmetric := by
  rw [Bool.eq_iff_iff, isSymmetric_iff, isSymmetric_iff]
  simp only [h.value]

theorem alike_symmetrized (h : M.storage.Alike N.storage) (wellFormed : M.storage.WellFormed)
    (wellFormed' : N.storage.WellFormed) (square : M.storage.count .row = M.storage.count .column) :
    M.symmetrized.storage.Alike N.symmetrized.storage where
  count axis := by simp [symmetrized, h.count]
  value i j := by
    have square' : N.storage.count .row = N.storage.count .column := by
      rw [← h.count, ← h.count, square]
    rw [value_symmetrized wellFormed square, value_symmetrized wellFormed' square', h.value,
      h.value]

end DataMatrix

/-! ## Problem data -/

namespace Data

/-- Whether two problems have the same matrices, however laid out, and the same vectors. -/
structure Alike (d e : Data (DataMatrix ℝ) ℝ) : Prop where
  P : d.P.storage.Alike e.P.storage
  A : d.A.storage.Alike e.A.storage
  q : d.q = e.q
  b : d.b = e.b

/-- What equilibration relies on in data that were taken in. -/
structure Sound (d : Data (DataMatrix ℝ) ℝ) (m n : Nat) : Prop where
  shaped : d.Shaped m n
  canonical : d.Canonical

variable {d e : Data (DataMatrix ℝ) ℝ} {m n : Nat}

theorem Alike.weighted (h : d.Alike e) (D E : Nat → ℝ) (c : ℝ) :
    (d.weighted D E c).Alike (e.weighted D E c) where
  P := h.P.weighted _
  A := h.A.weighted _
  q := by rw [Data.weighted, Data.weighted, h.q]
  b := by rw [Data.weighted, Data.weighted, h.b]

theorem Sound.costed (h : d.Sound m n) (c : ℝ) : (d.costed c).Sound m n where
  shaped := h.shaped.costed c
  canonical := by
    rw [costed_real]
    exact h.canonical.weighted _ _ _

theorem Sound.symmetrized (h : d.Sound m n) : Sound { d with P := d.P.symmetrized } m n where
  shaped := h.shaped.symmetrized
  canonical := ⟨DataMatrix.isCanonical_symmetrized h.canonical.P, h.canonical.A⟩

theorem Alike.costed (h : d.Alike e) (c : ℝ) : (d.costed c).Alike (e.costed c) := by
  rw [costed_real, costed_real]
  exact h.weighted _ _ _

section Scaled

variable {D E : Diagonal ℝ} (spansD : D.Spans n) (spansE : E.Spans m)

include spansD spansE

theorem Sound.scaled (h : d.Sound m n) (c : ℝ) : (d.scaled D E c).Sound m n where
  shaped := h.shaped.scaled spansD spansE c
  canonical := by
    rw [scaled_real h.shaped spansD spansE]
    exact h.canonical.weighted _ _ _

theorem Alike.scaled (h : d.Alike e) (left : d.Shaped m n) (right : e.Shaped m n) (c : ℝ) :
    (d.scaled D E c).Alike (e.scaled D E c) := by
  rw [scaled_real left spansD spansE, scaled_real right spansD spansE]
  exact h.weighted _ _ _

end Scaled

/-! ### Norms -/

/-- Vectors of norms are told by the bounds above their entries. -/
theorem norms_ext {v w : Array ℝ} (size : v.size = w.size) (left : ∀ j, 0 ≤ v.getD j 0)
    (right : ∀ j, 0 ≤ w.getD j 0)
    (bounds : ∀ j bound, v.getD j 0 ≤ bound ↔ w.getD j 0 ≤ bound) : v = w := by
  refine Array.ext size fun j hv hw => ?_
  have entry := eq_of_nonneg_of_forall_le_iff (left j) (right j) fun bound _ => bounds j bound
  simpa [hv, hw] using entry

namespace Alike

variable (h : d.Alike e) (left : d.Sound m n) (right : e.Sound m n)

include h left right

theorem objectiveNorms : d.objectiveNorms = e.objectiveNorms := by
  have size := left.shaped.size_objectiveNorms.trans right.shaped.size_objectiveNorms.symm
  have bounds (j : Nat) (bound : ℝ) :
      d.objectiveNorms.getD j 0 ≤ bound ↔ e.objectiveNorms.getD j 0 ≤ bound := by
    rw [objectiveNorms_le_iff left.shaped left.canonical,
      objectiveNorms_le_iff right.shaped right.canonical]
    simp only [h.P.value]
  exact norms_ext size (objectiveNorms_nonneg left.shaped left.canonical)
    (objectiveNorms_nonneg right.shaped right.canonical) bounds

theorem columnNorms : d.columnNorms = e.columnNorms := by
  have size := left.shaped.size_columnNorms.trans right.shaped.size_columnNorms.symm
  have bounds (j : Nat) (bound : ℝ) :
      d.columnNorms.getD j 0 ≤ bound ↔ e.columnNorms.getD j 0 ≤ bound := by
    rw [columnNorms_le_iff left.shaped left.canonical,
      columnNorms_le_iff right.shaped right.canonical]
    simp only [h.P.value, h.A.value]
  exact norms_ext size (columnNorms_nonneg left.shaped left.canonical)
    (columnNorms_nonneg right.shaped right.canonical) bounds

theorem rowNorms : d.rowNorms = e.rowNorms := by
  have size := left.shaped.size_rowNorms.trans right.shaped.size_rowNorms.symm
  have bounds (i : Nat) (bound : ℝ) :
      d.rowNorms.getD i 0 ≤ bound ↔ e.rowNorms.getD i 0 ≤ bound := by
    rw [rowNorms_le_iff left.shaped left.canonical, rowNorms_le_iff right.shaped right.canonical]
    simp only [h.A.value]
  exact norms_ext size (rowNorms_nonneg left.shaped left.canonical)
    (rowNorms_nonneg right.shaped right.canonical) bounds

theorem costFactor? (l : Limiter ℝ) : d.costFactor? l = e.costFactor? l := by
  rw [Data.costFactor?, Data.costFactor?, h.objectiveNorms left right, h.q]

end Alike

end Data

/-! ## Stages -/

namespace Stage

/-- Two stages that were led to by the same scaling from data that are alike. -/
structure Alike (s t : Stage ℝ) (m n : Nat) : Prop where
  left : s.data.Sound m n
  right : t.data.Sound m n
  data : s.data.Alike t.data
  D : s.D = t.D
  E : s.E = t.E
  sizeD : s.D.size = n
  sizeE : s.E.size = m
  progress : s.progress = t.progress

theorem alike_start {d e : Data (DataMatrix ℝ) ℝ} {m n : Nat} (h : d.Alike e)
    (left : d.Sound m n) (right : e.Sound m n) : (start d).Alike (start e) m n where
  left := left
  right := right
  data := h
  D := by simp only [start, h.A.count]
  E := by simp only [start, h.A.count]
  sizeD := (shaped_start left.shaped).sizeD
  sizeE := (shaped_start left.shaped).sizeE
  progress := rfl

namespace Alike

variable {s t : Stage ℝ} {m n : Nat} (h : s.Alike t m n)

include h

theorem shaped : s.Shaped m n := ⟨h.left.shaped, h.sizeD, h.sizeE⟩

theorem columnFactors (l : Limiter ℝ) : s.columnFactors l = t.columnFactors l := by
  rw [Stage.columnFactors, Stage.columnFactors, h.data.columnNorms h.left h.right]

theorem rowFactors (l : Limiter ℝ) : s.rowFactors l = t.rowFactors l := by
  rw [Stage.rowFactors, Stage.rowFactors, h.data.rowNorms h.left h.right]

theorem balanced (l : Limiter ℝ) : (s.balanced l).Alike (t.balanced l) m n := by
  have spansD := Diagonal.spans_entries (h.shaped.size_columnFactors l)
  have spansE := Diagonal.spans_entries (h.shaped.size_rowFactors l)
  have shaped := h.shaped.balanced l
  simp only [Stage.balanced, ← h.columnFactors, ← h.rowFactors, ← h.D, ← h.E,
    ← h.progress] at shaped ⊢
  exact {
    left := h.left.scaled spansD spansE 1
    right := h.right.scaled spansD spansE 1
    data := h.data.scaled spansD spansE h.left.shaped h.right.shaped 1
    D := rfl
    E := rfl
    sizeD := shaped.sizeD
    sizeE := shaped.sizeE
    progress := rfl }

theorem recosted (l : Limiter ℝ) : (s.recosted l).Alike (t.recosted l) m n := by
  rw [Stage.recosted, Stage.recosted, ← h.data.costFactor? h.left h.right]
  split
  · exact { h with
      left := h.left.costed _
      right := h.right.costed _
      data := h.data.costed _
      progress := by rw [h.progress] }
  · exact h

theorem pass (l : Limiter ℝ) : (s.pass l).Alike (t.pass l) m n := (h.balanced l).recosted l

theorem passes (l : Limiter ℝ) (k : Nat) : (s.passes l k).Alike (t.passes l k) m n := by
  induction k generalizing s t with
  | zero => exact h
  | succ k ih => exact ih (h.pass l)

theorem correction? (cones : Cone ℝ) : s.correction? cones = t.correction? cones := by
  rw [Stage.correction?, Stage.correction?, h.E]

theorem rectified (cones : Cone ℝ) : (s.rectified cones).Alike (t.rectified cones) m n := by
  rw [Stage.rectified, Stage.rectified, ← h.correction?]
  cases found : s.correction? cones with
  | none => exact h
  | some e =>
    have size := h.shaped.size_correction found
    have spansE := Diagonal.spans_entries size
    exact { h with
      left := h.left.scaled (D := .identity) trivial spansE 1
      right := h.right.scaled (D := .identity) trivial spansE 1
      data := h.data.scaled (D := .identity) trivial spansE h.left.shaped h.right.shaped 1
      E := by rw [h.E]
      sizeE := (Diagonal.size_times (size.trans h.sizeE.symm)).trans h.sizeE }

theorem symmetrized : s.symmetrized.Alike t.symmetrized m n := by
  rw [Stage.symmetrized, Stage.symmetrized, ← DataMatrix.isSymmetric_of_alike h.data.P]
  split
  · exact h
  · have square := h.left.shaped.rowsP.trans h.left.shaped.columnsP.symm
    have symmetric := DataMatrix.alike_symmetrized h.data.P h.left.shaped.wellFormedP
      h.right.shaped.wellFormedP square
    exact { h with
      left := h.left.symmetrized
      right := h.right.symmetrized
      data := { h.data with P := symmetric } }

theorem finished (l : Limiter ℝ) (cones : Cone ℝ) (k : Nat) :
    (s.finished l cones k).Alike (t.finished l cones k) m n := by
  have last := h.passes l k
  have rectified := last.rectified cones
  simp only [Stage.finished, ← last.correction?]
  split
  · exact rectified.symmetrized
  · exact rectified

end Alike

end Stage

/-! ## Workspaces -/

namespace Workspace

/-- Whether two workspaces only differ in how their matrices are laid out. -/
structure Alike (w v : Workspace ℝ) : Prop where
  data : w.data.Alike v.data
  cones : w.cones = v.cones
  settings : w.settings = v.settings
  scaling : w.scaling = v.scaling
  iterates : w.iterates = v.iterates
  phase : w.phase = v.phase

namespace Alike

variable {w v : Workspace ℝ} (h : w.Alike v)

include h

theorem m : w.m = v.m := h.data.A.count .row

theorem n : w.n = v.n := h.data.A.count .column

theorem with_settings (s : Settings ℝ) :
    Alike { w with settings := s } { v with settings := s } :=
  { h with settings := rfl }

section Equilibrated

variable (left : w.data.Sound w.m w.n) (right : v.data.Sound w.m w.n)

include left right

theorem lastPass : w.lastPass.Alike v.lastPass w.m w.n := by
  rw [Workspace.lastPass, Workspace.lastPass, ← h.settings]
  exact (Stage.alike_start h.data left right).passes _ _

theorem final : w.final.Alike v.final w.m w.n := by
  rw [Workspace.final, Workspace.final, ← h.settings, ← h.cones]
  exact (Stage.alike_start h.data left right).finished _ _ _

theorem report : w.report = v.report := by
  have last := h.lastPass left right
  have final := h.final left right
  simp only [Workspace.report, h.settings, last.progress, ← h.cones, last.correction?,
    h.data.columnNorms left right, h.data.rowNorms left right,
    final.data.columnNorms final.left final.right, final.data.rowNorms final.left final.right]

theorem equilibrated : w.equilibrated.Alike v.equilibrated := by
  have final := h.final left right
  constructor
  case data => exact final.data
  case cones => simp only [Workspace.equilibrated, scaledTo, reached, h.cones, final.E]
  case settings => exact h.settings
  case scaling =>
    simp only [Workspace.equilibrated, scaledTo, reached, final.D, final.E, final.progress]
  case iterates =>
    simp only [Workspace.equilibrated, scaledTo, reached, final.D, final.E, final.progress,
      h.iterates]
  case phase => rfl

end Equilibrated

theorem returned {m n : Nat} (left : w.data.Shaped m n) (right : v.data.Shaped m n)
    (sized : w.scaling.Sized m n) : w.returned.Alike v.returned := by
  have scaled := h.data.scaled (Diagonal.spans_entries sized.Dinv)
    (Diagonal.spans_entries sized.Einv) left right w.scaling.cinv
  constructor
  case data =>
    simp only [Workspace.returned, ← h.settings, ← h.scaling]
    split
    · exact scaled
    · exact h.data
  case cones => simp only [Workspace.returned, h.settings, h.scaling, h.cones]
  case settings => exact h.settings
  case scaling => exact h.scaling
  case iterates => simp only [Workspace.returned, h.scaling, h.iterates]
  case phase => rfl

end Alike

end Workspace

end ConicScaling
