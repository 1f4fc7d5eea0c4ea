import ConicScaling.Diagonal
import ConicScaling.Storage.Canonical
import ConicScaling.Storage.Symmetry

/-!
# Data matrices

Matrices of scalars, kept in double or single precision: line norms, products with diagonals and
scalars, and the symmetric part.
-/
namespace ConicScaling

/-- How finely entries are kept. In single precision every result is rounded once more. -/
inductive Precision
  | double
  | single
  deriving DecidableEq, Repr

variable {α β : Type}

/-- The larger of a norm so far and one more magnitude. Of two zeros, dense rows take the one that
is met last, and compressed slices keep the first. -/
def Storage.larger [Scalar α] (S : Storage β) (norm magnitude : α) : α :=
  match S with
  | .dense .. => Scalar.largerLast norm magnitude
  | .sparse .. => Scalar.larger norm magnitude

/-- The larger of each line's entry in `out` and the magnitudes stored in that line; once
not-a-number is met it stays. -/
def Storage.norms [Scalar α] (magnitude : β → α) (axis : Axis) (S : Storage β) (out : Array α) :
    Array α :=
  S.entries.foldl (fun out e => out.modify (e.along axis) (S.larger · (magnitude e.value))) out

/-- Whether an accumulator of `n` entries can take the norms of lines along `axis`. Dense rows need
one entry for each line, unless there is a single line or all lines are empty. Compressed slices
need one for each slice, and across them one for each index that is stored. -/
def Storage.checkNorms (axis : Axis) (n : Nat) (S : Storage β) : Except (Fault α) Unit :=
  match S with
  | .dense .. =>
    if n = S.count axis ∨ S.count axis = 1 ∨ S.count axis.other = 0 then .ok ()
    else .error .lengthMismatch
  | .sparse major _ slices =>
    if axis = major then if slices.size ≤ n then .ok () else .error .indexOutOfRange
    else if S.entries.all fun e => e.along axis < n then .ok ()
    else .error .indexOutOfRange

/-- An accumulator with an entry for every line is accepted. -/
theorem Storage.checkNorms_count {S : Storage β} (h : S.WellFormed) (axis : Axis) :
    S.checkNorms (α := α) axis (S.count axis) = .ok () := by
  cases S with
  | dense cols rows => simp [checkNorms]
  | sparse major minor slices =>
    have within := fun e => h.along_lt_count axis (e := e)
    by_cases same : axis = major <;> simp_all [checkNorms, count]

/-- Norms into an accumulator, which has to have room for them. The norm of a single dense line goes
into all of its entries. -/
def Storage.norms? [Scalar α] (magnitude : β → α) (axis : Axis) (S : Storage β) (out : Array α) :
    Except (Fault α) (Array α) := do
  S.checkNorms axis out.size
  return if S.layout = .dense ∧ S.count axis = 1 then
    out.flatMap fun norm => S.norms magnitude axis #[norm]
  else S.norms magnitude axis out

structure DataMatrix (α : Type) where
  precision : Precision
  storage : Storage α
  deriving DecidableEq, Repr

variable [Scalar α]

def Precision.round : Precision → α → α
  | .double, x => x
  | .single, x => Scalar.single x

/-- The sum as this precision keeps it. -/
def Precision.add (p : Precision) (x y : α) : α := p.round (x + y)

namespace DataMatrix

def norms? (axis : Axis) (M : DataMatrix α) (out : Array α) : Except (Fault α) (Array α) :=
  M.storage.norms? Scalar.abs axis out

/-- Multiplies the lines along an axis by a diagonal. -/
def scaleAlong (axis : Axis) : Diagonal α → EStateM (Fault α) (DataMatrix α) Unit
  | .identity => pure ()
  | .entries d => modify? fun M => do
    Diagonal.check axis d.size M.storage
    let d := Diagonal.expand (M.storage.count axis) d
    return { M with storage := Diagonal.scaleLines M.precision.round axis d M.storage }

/-- Replaces `M` by `diag L · M · diag R`. A product made before the other side fails stays. -/
def scale (L R : Diagonal α) : EStateM (Fault α) (DataMatrix α) Unit := do
  let M ← get
  let (first, second) := M.storage.productOrder
  scaleAlong first (first.side L R)
  scaleAlong second (second.side L R)

/-- `c · M`, where single precision rounds the factor as well. -/
def multiplied (c : α) (M : DataMatrix α) : DataMatrix α :=
  { M with storage := M.storage.map fun v => M.precision.round (v * M.precision.round c) }

def isSymmetric (M : DataMatrix α) : Bool :=
  M.storage.isSymmetric M.precision.add 0 Scalar.same

/-- Half the sum with the transpose. -/
def symmetrized (M : DataMatrix α) : DataMatrix α :=
  { M with
    storage := M.storage.symmetrized M.precision.add 0 (fun v => Scalar.same v 0)
      fun v => M.precision.round (Scalar.half v) }

/-- Replaces a square matrix by its symmetric part. -/
def symmetrize : EStateM (Fault α) (DataMatrix α) Unit :=
  modify? fun M =>
    if M.storage.shape.1 = M.storage.shape.2 then .ok M.symmetrized else .error .notSquare

/-- Sums what is stored at the same position and sorts each slice. -/
def canonical (M : DataMatrix α) : DataMatrix α :=
  { M with storage := M.storage.canonical M.precision.add }

end DataMatrix

end ConicScaling
