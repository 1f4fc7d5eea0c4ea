/-!
# Scalars

The arithmetic that scaling is written over. Running code uses doubles; the reals and any other
ordered field serve as well, so the same definitions can be read as exact arithmetic.
-/
namespace ConicScaling

/-- Numbers that data, scalings and iterates are made of. No law is asked for. -/
class Scalar (α : Type) extends Zero α, One α, Add α, Sub α, Mul α, Div α, Neg α, LT α, LE α,
    IntCast α where
  abs : α → α
  sqrt : α → α
  exp : α → α
  log : α → α
  /-- The nearest number that single precision can hold. -/
  single : α → α
  /-- The number nearest to `mantissa · 10 ^ exponent`. -/
  decimal (mantissa : Nat) (exponent : Int) : α
  /-- The integer part, towards zero; `none` for what is not finite. -/
  truncate? : α → Option Int
  decidableLT : DecidableLT α
  decidableLE : DecidableLE α

attribute [reducible, instance] Scalar.decidableLT Scalar.decidableLE

-- A type that has operations of its own keeps them.
attribute [instance (low)] Scalar.toZero Scalar.toOne Scalar.toAdd Scalar.toSub Scalar.toMul
  Scalar.toDiv Scalar.toNeg Scalar.toLT Scalar.toLE Scalar.toIntCast

namespace Scalar

variable {α : Type} [Scalar α]

/-- Not-a-number is what is not even at most itself. -/
def isNaN (x : α) : Bool := !decide (x ≤ x)

/-- Equality as the order sees it: both zeros are equal, and nothing equals not-a-number. -/
def same (x y : α) : Bool := decide (x ≤ y) && decide (y ≤ x)

/-- The larger of two numbers, where not-a-number on either side wins. Of equal numbers it is the
first, which tells the two zeros apart. -/
def larger (x y : α) : α := if x < y ∨ isNaN y then y else x

/-- The larger of two numbers as `larger` has it, except that of equal numbers it is the second. -/
def largerLast (x y : α) : α := if x ≤ y ∨ isNaN y then y else x

/-- The smaller of two numbers, where not-a-number on either side wins. -/
def smaller (x y : α) : α := if y < x ∨ isNaN y then y else x

/-- `y` when it exceeds `x`, and `x` in all other cases, not-a-number included. -/
def raise (x y : α) : α := if x < y then y else x

/-- `y` when it is below `x`, and `x` in all other cases, not-a-number included. -/
def lower (x y : α) : α := if y < x then y else x

def reciprocal (x : α) : α := 1 / x

def half (x : α) : α := decimal 5 (-1) * x

def infinity : α := 1 / 0

def nan : α := 0 / 0

/-- The number an integer stands for, unless it is too large to be finite. -/
def ofInt? (n : Int) : Option α :=
  let x : α := n
  if (truncate? x).isSome then some x else none

def ofNat (n : Nat) : α := ((n : Int) : α)

def ofBool (b : Bool) : α := if b then 1 else 0

end Scalar

end ConicScaling
