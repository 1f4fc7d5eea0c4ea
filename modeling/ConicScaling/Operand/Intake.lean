import ConicScaling.Event
import ConicScaling.Operand

/-!
# Taking in operands

A workspace holds matrices of real numbers with canonical slices, and vectors of doubles. What
comes in another form is converted, which is recorded, because the caller's own object is then no
longer the one that is scaled.
-/
namespace ConicScaling

variable {α : Type} [Scalar α]

namespace Numbers

def integerToReal (n : Int64) : α := ((n.toInt : Int) : α)

/-- Dense entries become doubles; compressed ones keep their precision, and duplicates add up. -/
def intake (input : Input) : Numbers α Storage → Logged α (DataMatrix α)
  | real p S =>
    match S.layout, p with
    | .dense, .single => do
      record (.copiedMatrix input)
      return ⟨.double, S⟩
    | _, _ => return DataMatrix.canonical ⟨p, S⟩
  | integer S => copied "int64" S integerToReal
  | boolean S => copied "bool" S Scalar.ofBool
where
  copied {β : Type} (typeName : String) (S : Storage β) (toReal : β → α) :
      Logged α (DataMatrix α) := do
    match S.layout with
    | .dense => record (.copiedMatrix input)
    | _ => record (.copiedEntries input typeName)
    return DataMatrix.canonical ⟨.double, S.map toReal⟩

/-- Sorts triplets into columns, adding duplicates in their own number type. -/
def ofTriplets (format : TripletFormat) : Numbers α Triplets → Numbers α Storage
  | real p T => real p (T.toStorage format p.add 0 fun v => Scalar.same v 0)
  | integer T => integer (T.toStorage format (· + ·) 0 (· == 0))
  | boolean T => boolean (T.toStorage format (· || ·) false (!·))

/-- All entries of an array as real numbers. -/
def toReals : Numbers α Tensor → Tensor α
  | real _ T => T
  | integer T => ⟨T.shape, T.data.map integerToReal⟩
  | boolean T => ⟨T.shape, T.data.map Scalar.ofBool⟩

/-- The entries of a dense matrix, row by row; a compressed one is no array. -/
def flatten? : Numbers α Storage → Option (Array α)
  | real _ (.dense _ rows) => some rows.flatten
  | integer (.dense _ rows) => some (rows.flatten.map integerToReal)
  | boolean (.dense _ rows) => some (rows.flatten.map Scalar.ofBool)
  | _ => none

end Numbers

namespace Operand

/-- Whether a workspace holds this very matrix. -/
def keptAsMatrix : Operand α → Bool
  | stored (.real .double _) => true
  | stored (.real .single S) => S.layout != .dense
  | _ => false

/-- Whether a workspace holds this very vector. -/
def keptAsVector : Operand α → Bool
  | array (.real .double T) => T.shape.length == 1
  | _ => false

/-- Reads an array as a matrix. -/
def ofArray (input : Input) (T : Tensor α) : Logged α (DataMatrix α) :=
  match T.toStorage? with
  | some S => return ⟨.double, S⟩
  | none => throw (.notTwoDimensional input T.shape)

/-- Converts to a matrix. -/
def intakeMatrix (input : Input) : Operand α → Logged α (DataMatrix α)
  | stored M => M.intake input
  | triplets format T => do
    record (.convertedFormat input format.label)
    (Numbers.ofTriplets format T).intake input
  | array (.real .double T) => ofArray input T
  | array T => do
    record (.copiedMatrix input)
    ofArray input T.toReals
  | value v => do
    record (.copiedMatrix input)
    ofArray input (← MonadExcept.ofExcept (v.toTensor? Value.toEntry?))

/-- All entries in order. A sparse matrix is no vector: one that is read by position is refused as
an item of the wrong shape, any other as an item that is no number. -/
def entries? : Operand α → Except (Fault α) (Array α)
  | stored M =>
    match M.flatten? with
    | some v => .ok v
    | none => .error .sparseVector
  | triplets .keyed _ | triplets .diagonals _ => .error .notNumeric
  | triplets .. => .error .sparseVector
  | array T => .ok T.toReals.data
  | value v => v.toVector?

/-- Converts to a vector of `n` entries. -/
def intakeVector (input : Input) (n : Nat) (v : Operand α) : Logged α (Array α) := do
  if !v.keptAsVector then record (.copiedVector input)
  let entries ← MonadExcept.ofExcept v.entries?
  if entries.size = n then return entries
  else throw (.vectorLength input entries.size n)

end Operand

end ConicScaling
