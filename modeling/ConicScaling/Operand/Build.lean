import ConicScaling.Operand

/-!
# Building operands

Operands are built from dynamic values, which are converted to one type of number first and then
arranged as an array or a matrix.
-/
namespace ConicScaling

/-- The types that numbers are converted to. -/
inductive NumberType
  | double
  | single
  | integer
  | boolean
  deriving DecidableEq, Repr

variable {α : Type} [Scalar α]

namespace Numbers

/-- Reads nested lists as an array of numbers of one type. -/
def ofValue? (type : NumberType) (v : Value α) : Except (Fault α) (Numbers α Tensor) :=
  match type with
  | .double => return real .double (← v.toTensor? Value.toEntry?)
  | .single => return real .single (← v.toTensor? fun v => return Scalar.single (← v.toEntry?))
  | .integer => return integer (← v.toTensor? Value.toInt64?)
  | .boolean => return boolean (← v.toTensor? fun v => return v.isTrue)

/-- Rearranges numbers, whatever their type. -/
def arrange? {F G : Type → Type} (f : {β : Type} → F β → Except (Fault α) (G β)) :
    Numbers α F → Except (Fault α) (Numbers α G)
  | real p x => return real p (← f x)
  | integer x => return integer (← f x)
  | boolean x => return boolean (← f x)

end Numbers

/-- The items of an array with one axis. -/
def Tensor.items? {β : Type} (T : Tensor β) : Except (Fault α) (Array β) :=
  if T.shape.length = 1 then .ok T.data else .error .malformedMatrix

/-- Lays the items of an array out in rows. -/
def Storage.ofTensor? {β : Type} (rows cols : Nat) (T : Tensor β) :
    Except (Fault α) (Storage β) :=
  match Tensor.toStorage? ⟨[rows, cols], T.data⟩ with
  | some S => if T.data.size = rows * cols then .ok S else .error .malformedMatrix
  | none => .error .malformedMatrix

/-- Compressed slices from stored values, their indices, and the offset at which each slice begins.
What lies beyond the last offset is dropped. -/
def Storage.ofCompressed? {β : Type} (major : Axis) (rows cols : Nat) (indices offsets : Array Nat)
    (T : Tensor β) : Except (Fault α) (Storage β) := do
  let values ← T.items?
  let starts := offsets.toList
  if starts.length ≠ major.select rows cols + 1 ∨ starts.head? ≠ some 0 ∨
      indices.size ≠ values.size ∨ indices.size < starts.getLastD 0 then
    throw .malformedMatrix
  let entries := Array.zip indices values
  return .sparse major (major.other.select rows cols)
    ((starts.zip starts.tail).map fun (start, stop) => (entries.extract start stop).toList).toArray

/-- Triplets from stored values, their rows and their columns, which have to lie in the matrix. -/
def Triplets.ofTensor? {β : Type} (rows cols : Nat) (row col : List Int) (T : Tensor β) :
    Except (Fault α) (Triplets β) := do
  let values := (← T.items?).toList
  let within (n : Nat) (i : Int) : Bool := decide (0 ≤ i) && decide (i < n)
  if row.length ≠ values.length ∨ col.length ≠ values.length ∨
      !row.all (within rows) ∨ !col.all (within cols) then
    throw .malformedMatrix
  return ⟨rows, cols, (row.zip (col.zip values)).map fun (i, j, v) => ⟨i.toNat, j.toNat, v⟩⟩

namespace Operand

/-- Reads nested lists as an array of numbers. -/
def array? (type : NumberType) (v : Value α) : Except (Fault α) (Operand α) :=
  return ofTensor (← Numbers.ofValue? type v)

/-- Reads lists as a dense matrix. -/
def dense? (type : NumberType) (rows cols : Nat) (v : Value α) : Except (Fault α) (Operand α) := do
  return stored (← (← Numbers.ofValue? type v).arrange? (Storage.ofTensor? rows cols))

/-- Reads a compressed matrix. -/
def compressed? (type : NumberType) (major : Axis) (rows cols : Nat) (indices offsets : Array Nat)
    (v : Value α) : Except (Fault α) (Operand α) := do
  return stored
    (← (← Numbers.ofValue? type v).arrange? (Storage.ofCompressed? major rows cols indices offsets))

/-- Reads triplets. -/
def triplets? (type : NumberType) (format : TripletFormat) (rows cols : Nat) (row col : List Int)
    (v : Value α) : Except (Fault α) (Operand α) := do
  return triplets format
    (← (← Numbers.ofValue? type v).arrange? (Triplets.ofTensor? rows cols row col))

/-- Reads nested lists as an array of doubles. -/
def vector? (v : Value α) : Except (Fault α) (Operand α) := array? .double v

end Operand

end ConicScaling
