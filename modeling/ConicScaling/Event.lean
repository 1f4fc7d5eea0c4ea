import ConicScaling.Cone
import ConicScaling.Fault
import ConicScaling.Focus

/-!
# Events

What a workspace records while it is set up, equilibrated and mapped back, and the line that each
event has in a log.
-/
namespace ConicScaling

inductive Level
  | debug
  | info
  deriving DecidableEq, Repr

def Level.label : Level → String
  | .debug => "DEBUG"
  | .info => "INFO"

/-- What one equilibration did. The spreads are ratios between the largest and the smallest norm
that is not zero; one means perfectly equilibrated. -/
structure Report (α : Type) where
  passes : Nat
  costScale : α
  costScaledPasses : Nat
  rectified : Bool
  colSpreadBefore : α
  colSpreadAfter : α
  rowSpreadBefore : α
  rowSpreadAfter : α
  deriving DecidableEq, Repr

inductive Event (α : Type)
  /-- A sparse matrix in another format is converted to compressed columns. -/
  | convertedFormat (input : Input) (format : String)
  /-- Stored integers or Booleans are copied to doubles. -/
  | copiedEntries (input : Input) (typeName : String)
  | copiedMatrix (input : Input)
  | copiedVector (input : Input)
  | rectifiedBlock (cone : Cone α) (rows : RowRange)
  | costScaled (pass passes : Nat) (factor cost : α)
  | costSkipped (pass passes : Nat) (meanNorm maxNorm : α)
  | rectified
  | equilibrated (level : Level) (report : Report α)
  | reversed

/-- The events so far, oldest first. -/
abbrev Journal (α : Type) := Array (Event α)

/-- What may fail and records events. -/
abbrev Logged (α : Type) := EStateM (Fault α) (Journal α)

def record {α : Type} (e : Event α) : Logged α Unit := modify (·.push e)

namespace Event

def level {α : Type} : Event α → Level
  | equilibrated level _ => level
  | _ => .debug

/-- A factor with three decimal places. -/
def factorText (x : Float) : String := (Decimal.scientific 3).write x

/-- A ratio with two decimal places. -/
def ratioText (x : Float) : String := (Decimal.scientific 2).write x

def passText (pass passes : Nat) : String :=
  "Ruiz pass " ++ toString pass ++ "/" ++ toString passes ++ ": "

def text : Event Float → String
  | convertedFormat input format =>
    input.label ++ ": converting " ++ format
      ++ " storage to csc, caller's matrix is not updated in place"
  | copiedEntries input typeName =>
    input.label ++ ": copying " ++ typeName
      ++ " data to float64, caller's matrix is not updated in place"
  | copiedMatrix input =>
    input.label ++ ": copying input to a float64 ndarray, caller's data is not updated in place"
  | copiedVector input =>
    input.label ++ ": copying input to a 1-D float64 array, caller's data is not updated in place"
  | rectifiedBlock cone rows =>
    "Rectified scaling of " ++ cone.text ++ " on rows " ++ toString rows.start.toInt ++ ":"
      ++ toString rows.stop.toInt
  | costScaled pass passes factor cost =>
    passText pass passes ++ "cost factor " ++ factorText factor ++ " (c=" ++ factorText cost ++ ")"
  | costSkipped pass passes meanNorm maxNorm =>
    passText pass passes ++ "objective scaling skipped (mean col norm P=" ++ factorText meanNorm
      ++ ", |q|_inf=" ++ factorText maxNorm ++ ")"
  | rectified => "Rectified dual scaling on uniform-scaling cone blocks"
  | equilibrated _ report =>
    "Equilibration: " ++ toString report.passes ++ " passes, c=" ++ factorText report.costScale
      ++ ", col norm spread " ++ ratioText report.colSpreadBefore ++ " -> "
      ++ ratioText report.colSpreadAfter ++ ", row norm spread "
      ++ ratioText report.rowSpreadBefore ++ " -> " ++ ratioText report.rowSpreadAfter
      ++ (if report.rectified then ", rectified" else "")
  | reversed => "Reverse equilibration done"

/-- The event as a line of a log. -/
def line (e : Event Float) : String := e.level.label ++ ": " ++ e.text

end Event

end ConicScaling
