/-!
# Matrix storage

A matrix is held as dense rows, or as compressed slices along one axis that list only the stored
entries. A position may be stored several times, in any order; it then stands for the sum.
-/
namespace ConicScaling

inductive Axis
  | row
  | column
  deriving DecidableEq, Repr

/-- The coordinate along this axis. -/
def Axis.select (axis : Axis) (i j : Nat) : Nat :=
  match axis with
  | .row => i
  | .column => j

/-- The axis across this one. -/
def Axis.other : Axis → Axis
  | .row => .column
  | .column => .row

/-- Row and column of what stands at place `l` of slice `k`, where slices run along this axis. -/
def Axis.position (major : Axis) (k l : Nat) : Nat × Nat :=
  match major with
  | .row => (k, l)
  | .column => (l, k)

/-- One stored entry. -/
structure Entry (β : Type) where
  row : Nat
  col : Nat
  value : β
  deriving DecidableEq, Repr

def Entry.along {β : Type} (e : Entry β) (axis : Axis) : Nat := axis.select e.row e.col

/-- The stored entries of one slice, each with its index along the other axis. -/
abbrev Slice (β : Type) := List (Nat × β)

inductive Storage (β : Type)
  | dense (cols : Nat) (rows : Array (Array β))
  | sparse (major : Axis) (minor : Nat) (slices : Array (Slice β))
  deriving DecidableEq, Repr

/-- How a matrix is laid out: dense, or compressed by columns or by rows. -/
inductive Layout
  | dense
  | compressedColumns
  | compressedRows
  deriving DecidableEq, Repr

def Layout.label : Layout → String
  | .dense => "dense"
  | .compressedColumns => "csc"
  | .compressedRows => "csr"

namespace Storage

variable {β γ : Type}

def layout : Storage β → Layout
  | dense .. => .dense
  | sparse .column .. => .compressedColumns
  | sparse .row .. => .compressedRows

/-- How many lines the matrix has along an axis: rows, or columns. -/
def count (axis : Axis) : Storage β → Nat
  | dense cols rows => axis.select rows.size cols
  | sparse major minor slices => if axis = major then slices.size else minor

def shape (S : Storage β) : Nat × Nat := (S.count .row, S.count .column)

/-- The stored entries, slice by slice. -/
def entries : Storage β → List (Entry β)
  | dense _ rows =>
    rows.toList.zipIdx.flatMap fun (row, i) => row.toList.zipIdx.map fun (v, j) => ⟨i, j, v⟩
  | sparse major _ slices =>
    slices.toList.zipIdx.flatMap fun (slice, k) => slice.map fun (l, v) =>
      ⟨(major.position k l).1, (major.position k l).2, v⟩

/-- Replaces each stored entry by a function of its row, column and value. -/
def mapEntries (f : Nat → Nat → β → γ) : Storage β → Storage γ
  | dense cols rows => dense cols (rows.mapIdx fun i row => row.mapIdx fun j v => f i j v)
  | sparse major minor slices =>
    sparse major minor (slices.mapIdx fun k slice => slice.map fun (l, v) =>
      (l, f (major.position k l).1 (major.position k l).2 v))

/-- Replaces each stored value. -/
def map (f : β → γ) (S : Storage β) : Storage γ := S.mapEntries fun _ _ v => f v

@[simp] theorem layout_mapEntries (f : Nat → Nat → β → γ) (S : Storage β) :
    (S.mapEntries f).layout = S.layout := by
  rcases S with _ | ⟨_ | _, _, _⟩ <;> rfl

@[simp] theorem count_mapEntries (f : Nat → Nat → β → γ) (S : Storage β) (axis : Axis) :
    (S.mapEntries f).count axis = S.count axis := by
  cases S <;> simp [mapEntries, count]

@[simp] theorem shape_mapEntries (f : Nat → Nat → β → γ) (S : Storage β) :
    (S.mapEntries f).shape = S.shape := by
  simp [shape]

/-- What a slice holds at place `l`, summed in stored order. -/
def sliceEntry (add : β → β → β) (zero : β) (slice : Slice β) (l : Nat) : β :=
  slice.foldl (fun sum (m, v) => if m = l then add sum v else sum) zero

/-- The entry at row `i` and column `j`; what is not stored is `zero`. -/
def entry (add : β → β → β) (zero : β) (S : Storage β) (i j : Nat) : β :=
  match S with
  | dense _ rows => ((rows.getD i #[])[j]?).getD zero
  | sparse .row _ slices => sliceEntry add zero (slices.getD i []) j
  | sparse .column _ slices => sliceEntry add zero (slices.getD j []) i

/-- Dense rows all have the stated length, and stored indices lie within the stated count. -/
def WellFormed : Storage β → Prop
  | dense cols rows => ∀ row ∈ rows, row.size = cols
  | sparse _ minor slices => ∀ slice ∈ slices, ∀ e ∈ slice, e.1 < minor

/-- Stored entries lie within the matrix. -/
theorem WellFormed.along_lt_count {S : Storage β} (h : S.WellFormed) (axis : Axis) {e : Entry β}
    (he : e ∈ S.entries) : e.along axis < S.count axis := by
  cases S with
  | dense cols rows =>
    simp only [entries, List.mem_flatMap, List.mem_map, Prod.exists] at he
    obtain ⟨row, i, hi, v, j, hj, rfl⟩ := he
    have hi := List.mem_zipIdx hi
    have hj := List.mem_zipIdx hj
    have hrow := h row (by grind)
    cases axis <;> simp only [Entry.along, Axis.select, count] <;> grind
  | sparse major minor slices =>
    simp only [entries, List.mem_flatMap, List.mem_map, Prod.exists] at he
    obtain ⟨slice, k, hk, l, v, hv, rfl⟩ := he
    have hk := List.mem_zipIdx hk
    have hslice := h slice (by grind) (l, v) hv
    cases axis <;> cases major <;>
      simp only [Entry.along, Axis.select, count, Axis.position] <;> grind

theorem WellFormed.mapEntries {S : Storage β} (h : S.WellFormed) (f : Nat → Nat → β → γ) :
    (S.mapEntries f).WellFormed := by
  cases S with
  | dense cols rows =>
    intro row hrow
    obtain ⟨i, hi, rfl⟩ := Array.mem_mapIdx.1 hrow
    simpa using h rows[i] (Array.getElem_mem hi)
  | sparse major minor slices =>
    intro slice hslice e he
    obtain ⟨k, hk, rfl⟩ := Array.mem_mapIdx.1 hslice
    obtain ⟨d, hd, rfl⟩ := List.mem_map.1 he
    exact h slices[k] (Array.getElem_mem hk) d hd

end Storage

end ConicScaling
