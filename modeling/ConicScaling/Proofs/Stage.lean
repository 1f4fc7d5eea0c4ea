import ConicScaling.Proofs.Rectification
import ConicScaling.Proofs.Symmetry
import ConicScaling.Equilibrate

/-!
# Stages of equilibration

The data as equilibration has scaled them so far, with the scaling that led there. A pass is a
function from one stage to the next: it depends on the data and the limits alone, and neither on
the work vectors nor on what was accumulated before. The sets only matter once, at the end.
-/
namespace ConicScaling

variable {α : Type} [Scalar α] {m n : Nat}

section Norms

variable {β : Type} (magnitude : β → α) (axis : Axis)

@[simp] theorem Storage.size_norms (S : Storage β) (out : Array α) :
    (S.norms magnitude axis out).size = out.size := by
  unfold Storage.norms
  induction S.entries generalizing out with
  | nil => rfl
  | cons e rest ih => simp [ih]

theorem Storage.norms?_count {S : Storage β} (h : S.WellFormed) {out : Array α}
    (size : out.size = S.count axis) :
    S.norms? magnitude axis out = .ok (S.norms magnitude axis out) := by
  have room : S.checkNorms (α := α) axis out.size = .ok () := by
    rw [size, Storage.checkNorms_count h axis]
  rw [Storage.norms?, room]
  refine congrArg Except.ok (ite_eq_right_iff.2 ?_)
  rintro ⟨-, single⟩
  obtain ⟨norm, rfl⟩ := Array.size_eq_one_iff.1 (size.trans single)
  simp

end Norms

namespace Data

/-- The norms of the columns of `P`. -/
def objectiveNorms (d : Data (DataMatrix α) α) : Array α :=
  d.P.storage.norms Scalar.abs .column (Array.replicate (d.P.storage.count .column) 0)

/-- The norms of the columns of `P` on top of `A`. -/
def columnNorms (d : Data (DataMatrix α) α) : Array α :=
  d.A.storage.norms Scalar.abs .column d.objectiveNorms

/-- The norms of the rows of `A`. -/
def rowNorms (d : Data (DataMatrix α) α) : Array α :=
  d.A.storage.norms Scalar.abs .row (Array.replicate (d.A.storage.count .row) 0)

variable {d : Data (DataMatrix α) α}

theorem Shaped.size_objectiveNorms (h : d.Shaped m n) : d.objectiveNorms.size = n := by
  simp [objectiveNorms, h.columnsP]

theorem Shaped.size_columnNorms (h : d.Shaped m n) : d.columnNorms.size = n := by
  simp [columnNorms, h.size_objectiveNorms]

theorem Shaped.size_rowNorms (h : d.Shaped m n) : d.rowNorms.size = m := by
  simp [rowNorms, h.rowsA]

theorem Shaped.objectiveNorms? (h : d.Shaped m n) {cols : Array α} (size : cols.size = n) :
    Scalable.norms? .column d.P (cols.map fun _ => 0) = .ok d.objectiveNorms := by
  have zeros : (cols.map fun _ => (0 : α)) = Array.replicate (d.P.storage.count .column) 0 := by
    rw [Array.map_const', size, h.columnsP]
  rw [zeros]
  exact Storage.norms?_count _ _ h.wellFormedP (by simp)

theorem Shaped.kktNorms? (h : d.Shaped m n) {cols rows : Array α} (columns : cols.size = n)
    (row : rows.size = m) :
    ConicScaling.kktNorms? d.P d.A cols rows = .ok (d.columnNorms, d.rowNorms) := by
  have onTop : Scalable.norms? .column d.A d.objectiveNorms = .ok d.columnNorms :=
    Storage.norms?_count _ _ h.wellFormedA (h.size_objectiveNorms.trans h.columnsA.symm)
  have zeros : (rows.map fun _ => (0 : α)) = Array.replicate (d.A.storage.count .row) 0 := by
    rw [Array.map_const', row, h.rowsA]
  have across : Scalable.norms? .row d.A (rows.map fun _ => (0 : α)) = .ok d.rowNorms := by
    rw [zeros]
    exact Storage.norms?_count _ _ h.wellFormedA (by simp)
  simp only [ConicScaling.kktNorms?, h.objectiveNorms? columns, across]
  simp only [onTop, bind, Except.bind, pure, Except.pure]

theorem Shaped.symmetrized (h : d.Shaped m n) :
    Shaped { d with P := d.P.symmetrized } m n where
  wellFormedP := DataMatrix.wellFormed_symmetrized h.wellFormedP (h.rowsP.trans h.columnsP.symm)
  rowsP := by simp [DataMatrix.symmetrized, h.rowsP]
  columnsP := by simp [DataMatrix.symmetrized, h.columnsP]
  wellFormedA := h.wellFormedA
  rowsA := h.rowsA
  columnsA := h.columnsA
  sizeq := h.sizeq
  sizeb := h.sizeb

/-- The factor for the objective, if neither `P` nor `q` is zero. -/
def costFactor? (l : Limiter α) (d : Data (DataMatrix α) α) : Option α :=
  let meanNorm := mean d.objectiveNorms
  let maxNorm := infNorm d.q
  if !Scalar.same meanNorm 0 && !Scalar.same maxNorm 0 then
    some (Workspace.costFactor l maxNorm meanNorm)
  else none

theorem eq_of_costFactor? {l : Limiter α} {factor : α} (found : d.costFactor? l = some factor) :
    factor = Workspace.costFactor l (infNorm d.q) (mean d.objectiveNorms) := by
  simp only [costFactor?, Option.ite_none_right_eq_some, Option.some.injEq] at found
  exact found.2.symm

end Data

structure Stage (α : Type) where
  data : Data (DataMatrix α) α
  D : Array α
  E : Array α
  progress : Workspace.Progress α

namespace Stage

/-- Where equilibration starts. -/
def start (d : Data (DataMatrix α) α) : Stage α :=
  ⟨d, ones (d.A.storage.count .column), ones (d.A.storage.count .row), ⟨1, 0⟩⟩

def columnFactors (l : Limiter α) (s : Stage α) : Array α :=
  Workspace.factors l s.data.columnNorms

def rowFactors (l : Limiter α) (s : Stage α) : Array α := Workspace.factors l s.data.rowNorms

/-- Lines divided by the square roots of their limited norms. -/
def balanced (l : Limiter α) (s : Stage α) : Stage α :=
  { s with
    data := s.data.scaled (.entries (s.columnFactors l)) (.entries (s.rowFactors l)) 1
    D := Diagonal.times (s.columnFactors l) s.D
    E := Diagonal.times (s.rowFactors l) s.E }

/-- The objective multiplied by its factor, if it has one. -/
def recosted (l : Limiter α) (s : Stage α) : Stage α :=
  match s.data.costFactor? l with
  | some factor =>
    { s with
      data := s.data.costed factor
      progress := ⟨s.progress.cost * factor, s.progress.costPasses + 1⟩ }
  | none => s

/-- What a pass leads to. -/
def pass (l : Limiter α) (s : Stage α) : Stage α := (s.balanced l).recosted l

def passes (l : Limiter α) (s : Stage α) : Nat → Stage α
  | 0 => s
  | left + 1 => (s.pass l).passes l left

/-- What passes leave in the work vectors: the norms of `P` and the factors for rows that the last
one formed. -/
def works (l : Limiter α) (cols rows : Array α) (s : Stage α) : Nat → Array α × Array α
  | 0 => (cols, rows)
  | left + 1 => (s.pass l).works l (s.balanced l).data.objectiveNorms (s.rowFactors l) left

/-- What the pass of a given number, out of `total`, records. -/
def event (l : Limiter α) (number total : Nat) (s : Stage α) : Event α :=
  let balanced := s.balanced l
  match balanced.data.costFactor? l with
  | some factor => .costScaled number total factor (s.progress.cost * factor)
  | none =>
    .costSkipped number total (mean balanced.data.objectiveNorms) (infNorm balanced.data.q)

def events (l : Limiter α) (number total : Nat) (s : Stage α) : Nat → List (Event α)
  | 0 => []
  | left + 1 => s.event l number total :: (s.pass l).events l (number + 1) total left

/-- The factors that bring every set to a scaling it admits, unless all have one already. -/
def correction? (cones : Cone α) (s : Stage α) : Option (Array α) :=
  if cones.uniformScaling && (cones.corrections s.E).1 then some (cones.corrections s.E).2
  else none

def rectified (cones : Cone α) (s : Stage α) : Stage α :=
  match s.correction? cones with
  | some e => { s with data := s.data.scaled .identity (.entries e) 1, E := Diagonal.times e s.E }
  | none => s

def symmetrized (s : Stage α) : Stage α :=
  if s.data.P.isSymmetric then s else { s with data.P := s.data.P.symmetrized }

/-- What `k` passes lead to, with every set rectified and `P` symmetric if anything was scaled. -/
def finished (l : Limiter α) (cones : Cone α) (k : Nat) (s : Stage α) : Stage α :=
  let last := s.passes l k
  let rectified := last.rectified cones
  if 0 < k || (last.correction? cones).isSome then rectified.symmetrized else rectified

@[simp] theorem E_recosted (l : Limiter α) (s : Stage α) : (s.recosted l).E = s.E := by
  unfold recosted
  split <;> rfl

@[simp] theorem progress_rectified (cones : Cone α) (s : Stage α) :
    (s.rectified cones).progress = s.progress := by
  unfold rectified
  split <;> rfl

@[simp] theorem progress_symmetrized (s : Stage α) : s.symmetrized.progress = s.progress := by
  unfold symmetrized
  split <;> rfl

@[simp] theorem progress_finished (l : Limiter α) (cones : Cone α) (k : Nat) (s : Stage α) :
    (s.finished l cones k).progress = (s.passes l k).progress := by
  simp only [finished]
  split <;> simp

@[simp] theorem E_symmetrized (s : Stage α) : s.symmetrized.E = s.E := by
  unfold symmetrized
  split <;> rfl

theorem E_finished (s : Stage α) (l : Limiter α) (cones : Cone α) (k : Nat) :
    (s.finished l cones k).E = ((s.passes l k).rectified cones).E := by
  simp only [finished]
  split <;> simp

@[simp] theorem D_rectified (cones : Cone α) (s : Stage α) : (s.rectified cones).D = s.D := by
  unfold rectified
  split <;> rfl

@[simp] theorem D_symmetrized (s : Stage α) : s.symmetrized.D = s.D := by
  unfold symmetrized
  split <;> rfl

theorem D_finished (s : Stage α) (l : Limiter α) (cones : Cone α) (k : Nat) :
    (s.finished l cones k).D = (s.passes l k).D := by
  simp only [finished]
  split <;> simp

structure Shaped (s : Stage α) (m n : Nat) : Prop where
  data : s.data.Shaped m n
  sizeD : s.D.size = n
  sizeE : s.E.size = m

theorem shaped_start {d : Data (DataMatrix α) α} (h : d.Shaped m n) : (start d).Shaped m n where
  data := h
  sizeD := by simp [start, ones, h.columnsA]
  sizeE := by simp [start, ones, h.rowsA]

variable {s : Stage α}

theorem Shaped.size_columnFactors (h : s.Shaped m n) (l : Limiter α) :
    (s.columnFactors l).size = n := by
  simp [columnFactors, Workspace.factors, h.data.size_columnNorms]

theorem Shaped.size_rowFactors (h : s.Shaped m n) (l : Limiter α) :
    (s.rowFactors l).size = m := by
  simp [rowFactors, Workspace.factors, h.data.size_rowNorms]

theorem Shaped.balanced (h : s.Shaped m n) (l : Limiter α) : (s.balanced l).Shaped m n where
  data := h.data.scaled (Diagonal.spans_entries (h.size_columnFactors l))
    (Diagonal.spans_entries (h.size_rowFactors l)) 1
  sizeD := (Diagonal.size_times ((h.size_columnFactors l).trans h.sizeD.symm)).trans h.sizeD
  sizeE := (Diagonal.size_times ((h.size_rowFactors l).trans h.sizeE.symm)).trans h.sizeE

theorem Shaped.recosted (h : s.Shaped m n) (l : Limiter α) : (s.recosted l).Shaped m n := by
  unfold Stage.recosted
  split
  · exact ⟨h.data.costed _, h.sizeD, h.sizeE⟩
  · exact h

theorem Shaped.pass (h : s.Shaped m n) (l : Limiter α) : (s.pass l).Shaped m n :=
  (h.balanced l).recosted l

theorem Shaped.passes (h : s.Shaped m n) (l : Limiter α) (k : Nat) :
    (s.passes l k).Shaped m n := by
  induction k generalizing s with
  | zero => exact h
  | succ k ih => exact ih (h.pass l)

theorem Shaped.size_works (h : s.Shaped m n) (l : Limiter α) {cols rows : Array α}
    (columns : cols.size = n) (row : rows.size = m) (k : Nat) :
    (s.works l cols rows k).1.size = n ∧ (s.works l cols rows k).2.size = m := by
  induction k generalizing s cols rows with
  | zero => exact ⟨columns, row⟩
  | succ k ih =>
    exact ih (h.pass l) (h.balanced l).data.size_objectiveNorms (h.size_rowFactors l)

theorem Shaped.size_corrections (h : s.Shaped m n) (cones : Cone α) :
    (cones.corrections s.E).2.size = m := by
  rw [Cone.corrections, Cone.size_corrected (by simp), Array.size_replicate, h.sizeE]

theorem eq_of_correction? {cones : Cone α} {e : Array α} (found : s.correction? cones = some e) :
    e = (cones.corrections s.E).2 := by
  simp only [correction?, Option.ite_none_right_eq_some, Option.some.injEq] at found
  exact found.2.symm

theorem Shaped.size_correction (h : s.Shaped m n) {cones : Cone α} {e : Array α}
    (found : s.correction? cones = some e) : e.size = m := by
  rw [eq_of_correction? found]
  exact h.size_corrections cones

theorem Shaped.rectified (h : s.Shaped m n) (cones : Cone α) :
    (s.rectified cones).Shaped m n := by
  unfold Stage.rectified
  cases found : s.correction? cones with
  | none => exact h
  | some e =>
    have size := h.size_correction found
    have spans := Diagonal.spans_entries size
    refine ⟨h.data.scaled (D := .identity) trivial spans 1, h.sizeD, ?_⟩
    exact (Diagonal.size_times (size.trans h.sizeE.symm)).trans h.sizeE

theorem Shaped.symmetrized (h : s.Shaped m n) : s.symmetrized.Shaped m n := by
  unfold Stage.symmetrized
  split
  · exact h
  · exact ⟨h.data.symmetrized, h.sizeD, h.sizeE⟩

theorem Shaped.finished (h : s.Shaped m n) (l : Limiter α) (cones : Cone α) (k : Nat) :
    (s.finished l cones k).Shaped m n := by
  have rectified := (h.passes l k).rectified cones
  simp only [Stage.finished]
  split
  · exact rectified.symmetrized
  · exact rectified

end Stage

end ConicScaling
