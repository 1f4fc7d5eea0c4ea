import ConicScaling.Decimal.Notation

/-!
# Elementary sets

A set that constrains a run of consecutive rows. Some allow every row its own scaling; the curved
ones only keep their shape when all their rows are scaled alike.
-/
namespace ConicScaling

/-- The sets that rows of a problem may be constrained to, and products of them. -/
inductive Kind
  | zero
  | nonnegative
  | box
  | secondOrder
  | semidefinite
  | semidefiniteTriangle
  | exponential
  | dualExponential
  | power
  | dualPower
  | product
  deriving DecidableEq, Repr

/-- The name that messages give to a set of this kind. -/
def Kind.label : Kind → String
  | .zero => "ZeroSet"
  | .nonnegative => "Nonnegatives"
  | .box => "Box"
  | .secondOrder => "SecondOrderCone"
  | .semidefinite => "PsdCone"
  | .semidefiniteTriangle => "PsdConeTriangle"
  | .exponential => "ExponentialCone"
  | .dualExponential => "DualExponentialCone"
  | .power => "PowerCone"
  | .dualPower => "DualPowerCone"
  | .product => "CompositeConvexSet"

inductive Block (α : Type)
  | zero (dim : Nat)
  | nonnegative (dim : Nat)
  /-- All points between the bounds. -/
  | box (lower upper : Array α)
  | secondOrder (dim : Nat)
  /-- Positive semidefinite matrices with all `side * side` entries listed. -/
  | semidefinite (side : Nat)
  /-- Positive semidefinite matrices with the entries of one triangle listed. -/
  | semidefiniteTriangle (side : Nat)
  | exponential
  | dualExponential
  | power (alpha : α)
  | dualPower (alpha : α)
  deriving DecidableEq, Repr

namespace Block

variable {α : Type}

def kind : Block α → Kind
  | zero _ => .zero
  | nonnegative _ => .nonnegative
  | box .. => .box
  | secondOrder _ => .secondOrder
  | semidefinite _ => .semidefinite
  | semidefiniteTriangle _ => .semidefiniteTriangle
  | exponential => .exponential
  | dualExponential => .dualExponential
  | power _ => .power
  | dualPower _ => .dualPower

/-- How many rows the set constrains. -/
def dim : Block α → Nat
  | zero dim | nonnegative dim | secondOrder dim => dim
  | box lower _ => lower.size
  | semidefinite side => side * side
  | semidefiniteTriangle side => side * (side + 1) / 2
  | exponential | dualExponential | power _ | dualPower _ => 3

/-- The side of the matrices, for the semidefinite sets. -/
def side? : Block α → Option Nat
  | semidefinite side | semidefiniteTriangle side => some side
  | _ => none

def alpha? : Block α → Option α
  | power alpha | dualPower alpha => some alpha
  | _ => none

/-- The bounds of a box. -/
def bounds? : Block α → Option (Array α × Array α)
  | box lower upper => some (lower, upper)
  | _ => none

/-- Whether the rows of the set have to be scaled alike. -/
def uniformScaling : Block α → Bool
  | zero _ | nonnegative _ | box .. => false
  | _ => true

/-- The set as messages show it. -/
def text (block : Block Float) : String :=
  let alpha := match block.alpha? with
    | some alpha => ", alpha=" ++ Decimal.plain.write alpha
    | none => ""
  block.kind.label ++ "(dim=" ++ toString block.dim ++ alpha ++ ")"

end Block

end ConicScaling
