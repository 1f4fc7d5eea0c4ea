import ConicScaling.Cone.Block

/-!
# Faults

Everything that can go wrong, by cause. A fault that the library states itself has a message;
one that arises inside a conversion or an elementwise operation has none.
-/
namespace ConicScaling

/-- What a caller hands to a workspace, by the letter it has in the problem statement. -/
inductive Input
  | P
  | A
  | q
  | b
  | x
  | s
  | mu
  deriving DecidableEq, Repr

def Input.label : Input → String
  | .P => "P"
  | .A => "A"
  | .q => "q"
  | .b => "b"
  | .x => "x"
  | .s => "s"
  | .mu => "mu"

/-- A workspace holds data in the units of its caller, is scaled once, and is mapped back once. -/
inductive Phase
  | raw
  | scaled
  | unscaled
  deriving DecidableEq, Repr

def Phase.label : Phase → String
  | .raw => "raw"
  | .scaled => "scaled"
  | .unscaled => "unscaled"

inductive Fault (α : Type)
  /-- Text that is no numeral where a number is needed. -/
  | malformedNumeral
  /-- Not-a-number where an integer is needed. -/
  | undefinedInteger
  /-- An infinity where an integer is needed. -/
  | infiniteInteger
  /-- An integer that the arithmetic at hand cannot hold. -/
  | integerTooLarge
  /-- A value of a type that converts to no number. -/
  | notNumeric
  /-- Nested lists of unequal lengths. -/
  | ragged
  /-- Lists nested deeper than an array has axes. -/
  | tooManyAxes
  /-- Entries, indices and offsets of a matrix that do not belong together. -/
  | malformedMatrix
  /-- An argument without a default is missing. -/
  | missingArgument
  | unknownSetting (name : String)
  /-- A sparse matrix where a vector is needed. -/
  | sparseVector
  /-- Operands of an elementwise operation differ in length. -/
  | lengthMismatch
  /-- A matrix that is not square added to its transpose. -/
  | notSquare
  /-- A stored index has no entry in the diagonal it selects from. -/
  | indexOutOfRange
  /-- Integer or Boolean entries cannot hold a real product. -/
  | inexactProduct
  | divisionByZero
  /-- A value that has no shape. -/
  | noShape
  /-- A shape with fewer than two lengths. -/
  | tooFewAxes
  /-- A value that is no sequence where a sequence of sets is needed. -/
  | notIterable
  /-- A set that is not a product has no blocks to split along. -/
  | noBlocks
  | unsupportedFormat (format : String)
  | notMatrix (typeName : String)
  | negativePasses (passes : Int)
  | invalidBounds (low high : α)
  | negativeDimension (kind : Kind) (dim : Int)
  | boundLengths (lower upper : Nat)
  | crossedBounds
  | secondOrderTooSmall
  | notPerfectSquare (dim : Nat)
  | notTriangular (dim : Nat)
  | dimensionNotThree (kind : Kind) (dim : Nat)
  | alphaOutOfRange (kind : Kind) (alpha : α)
  | notConvexSet (typeName : String)
  | splitLength (length dim : Nat)
  | notTwoDimensional (input : Input) (shape : List Nat)
  | notSquareOf (shape : Nat × Nat) (rows cols : Nat)
  | vectorLength (input : Input) (length expected : Nat)
  | coneDimension (dim rows : Nat)
  | notRaw (phase : Phase)
  | notScaled (phase : Phase)
  | lateWarmStart
  deriving DecidableEq, Repr

/-- The kinds of faults that a caller can tell apart when catching them. -/
inductive FaultKind
  /-- A value of the right type that is not acceptable. -/
  | value
  | type
  | overflow
  | index
  | zeroDivision
  | attribute
  /-- A call that comes at the wrong time. -/
  | runtime
  deriving DecidableEq, Repr

/-- The lengths of a shape in parentheses; a single one keeps its comma. -/
def shapeText : List Nat → String
  | [n] => "(" ++ toString n ++ ",)"
  | lengths => "(" ++ ", ".intercalate (lengths.map toString) ++ ")"

def pairText (shape : Nat × Nat) : String := shapeText [shape.1, shape.2]

namespace Fault

def kind {α : Type} : Fault α → FaultKind
  | malformedNumeral | undefinedInteger | ragged | tooManyAxes | malformedMatrix | sparseVector
  | lengthMismatch | notSquare | negativePasses _ | invalidBounds .. | negativeDimension ..
  | boundLengths .. | crossedBounds | secondOrderTooSmall | notPerfectSquare _ | notTriangular _
  | dimensionNotThree .. | alphaOutOfRange .. | splitLength .. | notTwoDimensional ..
  | notSquareOf .. | vectorLength .. | coneDimension .. => .value
  | infiniteInteger | integerTooLarge => .overflow
  | notNumeric | missingArgument | unknownSetting _ | inexactProduct | notIterable
  | unsupportedFormat _ | notMatrix _ | notConvexSet _ => .type
  | indexOutOfRange | tooFewAxes => .index
  | divisionByZero => .zeroDivision
  | noShape | noBlocks => .attribute
  | notRaw _ | notScaled _ | lateWarmStart => .runtime

/-- The text of a fault that the library states itself. -/
def message? : Fault Float → Option String
  | unsupportedFormat format =>
    some ("Unsupported sparse format '" ++ format ++ "', convert to CSC or CSR first")
  | notMatrix typeName =>
    some ("Expected a 2-D ndarray or CSC/CSR matrix, got " ++ typeName)
  | negativePasses passes =>
    some ("scaling must be a non-negative integer, got " ++ toString passes)
  | invalidBounds low high =>
    some ("scaling bounds must satisfy 0 < min_scaling <= 1 <= max_scaling, got ["
      ++ Decimal.plain.write low ++ ", " ++ Decimal.plain.write high ++ "]")
  | negativeDimension kind dim =>
    some (kind.label ++ ": dimension must be non-negative, got " ++ toString dim)
  | boundLengths lower upper =>
    some ("Box: bounds have different lengths " ++ toString lower ++ " and " ++ toString upper)
  | crossedBounds => some "Box: lower bound exceeds upper bound"
  | secondOrderTooSmall => some "SecondOrderCone: dimension must be at least 1"
  | notPerfectSquare dim =>
    some ("PsdCone: dimension " ++ toString dim ++ " is not a perfect square")
  | notTriangular dim =>
    some ("PsdConeTriangle: dimension " ++ toString dim ++ " is not a triangular number")
  | dimensionNotThree kind dim =>
    some (kind.label ++ ": dimension must be 3, got " ++ toString dim)
  | alphaOutOfRange kind alpha =>
    some (kind.label ++ ": alpha must lie in (0, 1), got " ++ Decimal.plain.write alpha)
  | notConvexSet typeName =>
    some ("CompositeConvexSet: expected convex sets, got " ++ typeName)
  | splitLength length dim =>
    some ("Vector of length " ++ toString length ++ " does not match set dimension "
      ++ toString dim)
  | notTwoDimensional input shape =>
    some (input.label ++ " must be 2-D, got shape " ++ shapeText shape)
  | notSquareOf shape rows cols =>
    some ("P has shape " ++ pairText shape ++ ", expected " ++ pairText (cols, cols)
      ++ " to match A " ++ pairText (rows, cols))
  | vectorLength input length expected =>
    some (input.label ++ " has length " ++ toString length ++ ", expected " ++ toString expected)
  | coneDimension dim rows =>
    some ("Cone dimensions add up to " ++ toString dim ++ ", but A has " ++ toString rows
      ++ " rows")
  | notRaw phase =>
    some ("equilibrate() called on a workspace in phase '" ++ phase.label ++ "'")
  | notScaled phase =>
    some ("reverse_equilibrate() called on a workspace in phase '" ++ phase.label ++ "'")
  | lateWarmStart => some "warm starts must be set before equilibrate()"
  | malformedNumeral | undefinedInteger | infiniteInteger | integerTooLarge | notNumeric | ragged
  | tooManyAxes | malformedMatrix
  | missingArgument | unknownSetting _ | sparseVector | lengthMismatch | notSquare
  | indexOutOfRange | inexactProduct | divisionByZero | noShape | tooFewAxes | notIterable
  | noBlocks => none

end Fault

end ConicScaling
