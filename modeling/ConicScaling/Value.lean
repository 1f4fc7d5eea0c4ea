import ConicScaling.Fault
import ConicScaling.Text.Numeral

/-!
# Dynamic values

Settings and raw inputs come as values whose type is known only when they are read. Here they are
tested for truth and converted to integers, scalars and nested arrays of numbers.
-/
namespace ConicScaling

inductive Value (α : Type)
  | null
  | bool (b : Bool)
  | integer (n : Int)
  | real (x : α)
  | text (s : String)
  | list (items : List (Value α))
  | record (fields : List (String × Value α))

/-- Numbers laid out along any number of axes, the last one varying fastest. -/
structure Tensor (β : Type) where
  shape : List Nat
  data : Array β
  deriving DecidableEq, Repr

def Tensor.ofVector {β : Type} (v : Array β) : Tensor β := ⟨[v.size], v⟩

namespace Value

variable {α β : Type}

def typeName : Value α → String
  | null => "NoneType"
  | bool _ => "bool"
  | integer _ => "int"
  | real _ => "float"
  | text _ => "str"
  | list _ => "list"
  | record _ => "dict"

/-- The value of a field, if this is a record that has it. -/
def field? (name : String) : Value α → Option (Value α)
  | record fields => fields.lookup name
  | _ => none

mutual

/-- The common shape of nested lists; `none` when they do not agree. -/
def shape? : Value α → Option (List Nat)
  | list items => (rowShape? items).map (items.length :: ·)
  | _ => some []

/-- The shape that all items share. No items have the shape of a number. -/
def rowShape? : List (Value α) → Option (List Nat)
  | [] => some []
  | [item] => item.shape?
  | item :: items =>
    match item.shape?, rowShape? items with
    | some s, some t => if s = t then some s else none
    | _, _ => none

end

mutual

/-- The innermost items of nested lists, in order. -/
def leaves : Value α → List (Value α)
  | list items => leavesOf items
  | v => [v]

def leavesOf : List (Value α) → List (Value α)
  | [] => []
  | item :: items => item.leaves ++ leavesOf items

end

/-- The most axes that an array has. -/
def axisLimit : Nat := 64

/-- Reads nested lists as an array, converting each innermost item. -/
def toTensor? (convert : Value α → Except (Fault α) β) (v : Value α) :
    Except (Fault α) (Tensor β) :=
  match v.shape? with
  | none => .error .ragged
  | some shape => do
    if axisLimit < shape.length then throw .tooManyAxes
    let data ← v.leaves.mapM convert
    return ⟨shape, data.toArray⟩

variable [Scalar α]

/-- Zero, empty and missing values are false. -/
def isTrue : Value α → Bool
  | null => false
  | bool b => b
  | integer n => n != 0
  | real x => !Scalar.same x 0
  | text s => !s.isEmpty
  | list items => !items.isEmpty
  | record fields => !fields.isEmpty

/-- Reads an integer; a real number loses its fraction. -/
def toInteger? : Value α → Except (Fault α) Int
  | bool b => .ok (if b then 1 else 0)
  | integer n => .ok n
  | real x =>
    match Scalar.truncate? x with
    | some n => .ok n
    | none => .error (if Scalar.isNaN x then .undefinedInteger else .infiniteInteger)
  | text s =>
    match Text.readInteger? s with
    | some n => .ok n
    | none => .error .malformedNumeral
  | null | list _ | record _ => .error .notNumeric

/-- Reads a scalar. -/
def toScalar? : Value α → Except (Fault α) α
  | bool b => .ok (Scalar.ofBool b)
  | integer n =>
    match Scalar.ofInt? n with
    | some x => .ok x
    | none => .error .integerTooLarge
  | real x => .ok x
  | text s =>
    match Text.readNumeral? s with
    | some n => .ok n.value
    | none => .error .malformedNumeral
  | null | list _ | record _ => .error .notNumeric

/-- Reads an item of an array, where a missing value is not-a-number. -/
def toEntry? : Value α → Except (Fault α) α
  | null => .ok Scalar.nan
  | v => v.toScalar?

/-- Reads an item of an array of 64-bit integers. -/
def toInt64? (v : Value α) : Except (Fault α) Int64 := do
  let n ← v.toInteger?
  if -9223372036854775808 ≤ n ∧ n < 9223372036854775808 then return Int64.ofInt n
  else throw .integerTooLarge

/-- Reads nested lists of scalars as a vector, innermost items in order. -/
def toVector? (v : Value α) : Except (Fault α) (Array α) := return (← v.toTensor? toEntry?).data

end Value

end ConicScaling
