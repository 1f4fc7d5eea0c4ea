import ConicScaling.Cone
import ConicScaling.Value

/-!
# Building sets

Sets are built from dynamic values, which are converted first and then checked. The side of a
semidefinite set is the integer root of its dimension, if there is one.
-/
namespace ConicScaling

/-- The largest number whose square is at most `n`, found one binary digit at a time. -/
def squareRoot (n : Nat) : Nat :=
  if _h : n = 0 then 0
  else
    let r := 2 * squareRoot (n / 4)
    if (r + 1) * (r + 1) ≤ n then r + 1 else r
termination_by n

theorem squareRoot_bounds (n : Nat) :
    squareRoot n * squareRoot n ≤ n ∧ n < (squareRoot n + 1) * (squareRoot n + 1) := by
  induction n using Nat.strongRecOn with
  | ind n ih =>
    unfold squareRoot
    split
    · simp_all
    · rename_i h
      obtain ⟨low, high⟩ := ih (n / 4) (by omega)
      generalize squareRoot (n / 4) = s at low high
      have expand : 2 * s * (2 * s) = 4 * (s * s) := by grind
      have next : (s + 1) * (s + 1) = s * s + 2 * s + 1 := by grind
      have odd : (2 * s + 1) * (2 * s + 1) = 4 * (s * s) + 4 * s + 1 := by grind
      have even : (2 * s + 1 + 1) * (2 * s + 1 + 1) = 4 * (s * s) + 8 * s + 4 := by grind
      simp only
      split
      · constructor <;> omega
      · constructor <;> omega

/-- The `k` with `k * k = n`. -/
def squareSide? (n : Nat) : Option Nat :=
  let k := squareRoot n
  if k * k = n then some k else none

/-- The `k` with `k * (k + 1) / 2 = n`. -/
def triangleSide? (n : Nat) : Option Nat :=
  let k := (squareRoot (8 * n + 1) - 1) / 2
  if k * (k + 1) / 2 = n then some k else none

variable {α : Type} [Scalar α]

/-- The arguments that a set may be built from. -/
structure Arguments (α : Type) where
  dim : Option (Value α)
  alpha : Option (Value α)
  lower : Option (Value α)
  upper : Option (Value α)

namespace Block

def require (argument : Option (Value α)) : Except (Fault α) (Value α) :=
  match argument with
  | some v => .ok v
  | none => .error .missingArgument

/-- Converts a dimension and refuses a negative one. -/
def readDim (kind : Kind) (v : Value α) : Except (Fault α) Nat := do
  let dim ← v.toInteger?
  if dim < 0 then throw (.negativeDimension kind dim)
  return dim.toNat

/-- Converts the dimension of a set that always has three rows. -/
def readThree (kind : Kind) (v : Value α) : Except (Fault α) Unit := do
  let dim ← readDim kind v
  if dim ≠ 3 then throw (.dimensionNotThree kind dim)

def readSecondOrder (v : Value α) : Except (Fault α) (Block α) := do
  let dim ← readDim .secondOrder v
  if dim < 1 then throw .secondOrderTooSmall
  return .secondOrder dim

def readSemidefinite (v : Value α) : Except (Fault α) (Block α) := do
  let dim ← readDim .semidefinite v
  match squareSide? dim with
  | some side => return .semidefinite side
  | none => throw (.notPerfectSquare dim)

def readSemidefiniteTriangle (v : Value α) : Except (Fault α) (Block α) := do
  let dim ← readDim .semidefiniteTriangle v
  match triangleSide? dim with
  | some side => return .semidefiniteTriangle side
  | none => throw (.notTriangular dim)

/-- Checks the dimension of a power cone before its exponent. -/
def readAlpha (kind : Kind) (dim : Option (Value α)) (alpha : Value α) : Except (Fault α) α := do
  readThree kind (dim.getD (.integer 3))
  let alpha ← alpha.toScalar?
  if 0 < alpha ∧ alpha < 1 then return alpha else throw (.alphaOutOfRange kind alpha)

/-- Reads the bounds of a box, each flattened, and compares them row by row. -/
def readBox (lower upper : Value α) : Except (Fault α) (Block α) := do
  let lower ← lower.toVector?
  let upper ← upper.toVector?
  if lower.size ≠ upper.size then throw (.boundLengths lower.size upper.size)
  if (Array.zip lower upper).any fun (l, u) => u < l then throw .crossedBounds
  return .box lower upper

end Block

namespace Cone

/-- Builds a product, refusing dimensions that 64 bits cannot hold, with or without a sign, and
those whose counts add up to less than nothing. -/
def product? (members : List (Cone α)) : Except (Fault α) (Cone α) := do
  if (dims members).any (2 * countLimit ≤ ·) then throw .integerTooLarge
  if span members < 0 then throw (.negativeDimension .product (span members).toInt)
  return .product members

end Cone

/-- Builds an elementary set of a given kind; a product is not one. -/
def Block.read (kind : Kind) (a : Arguments α) : Except (Fault α) (Block α) :=
  match kind with
  | .zero => do return .zero (← readDim kind (← require a.dim))
  | .nonnegative => do return .nonnegative (← readDim kind (← require a.dim))
  | .box => do readBox (← require a.lower) (← require a.upper)
  | .secondOrder => do readSecondOrder (← require a.dim)
  | .semidefinite => do readSemidefinite (← require a.dim)
  | .semidefiniteTriangle => do readSemidefiniteTriangle (← require a.dim)
  | .exponential => do
    readThree kind (a.dim.getD (.integer 3))
    return .exponential
  | .dualExponential => do
    readThree kind (a.dim.getD (.integer 3))
    return .dualExponential
  | .power => do return .power (← readAlpha kind a.dim (← require a.alpha))
  | .dualPower => do return .dualPower (← readAlpha kind a.dim (← require a.alpha))
  | .product => .error .missingArgument

/-- What stands where a set is expected: a set, a sequence of such things, or a plain value. -/
inductive Member (α : Type)
  | set (cone : Cone α)
  | sequence (members : List (Member α))
  | value (v : Value α)

namespace Member

def toCone? : Member α → Except (Fault α) (Cone α)
  | set c => .ok c
  | sequence _ => .error (.notConvexSet (Value.list (α := α) []).typeName)
  | value v => .error (.notConvexSet v.typeName)

/-- Builds the product of a sequence, which may hold nothing but sets. -/
def product? (members : List (Member α)) : Except (Fault α) (Cone α) := do
  Cone.product? (← members.mapM toCone?)

/-- Reads a product: a product is itself, any other set becomes the product of itself alone, and a
sequence the product of its items. Text and records are sequences of texts. -/
def toProduct? : Member α → Except (Fault α) (Cone α)
  | set (.product members) => .ok (.product members)
  | set c => Cone.product? [c]
  | sequence members => product? members
  | value (.list items) => product? (items.map value)
  | value (.text s) => product? (s.toList.map fun c => value (.text c.toString))
  | value (.record fields) => product? (fields.map fun f => value (.text f.1))
  | value _ => .error .notIterable

end Member

end ConicScaling
