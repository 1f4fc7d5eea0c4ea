import ConicScaling.DataMatrix

/-!
# Quadratic program data

The data of `min ½ xᵀPx + qᵀx` subject to `Ax + s = b`, and the one operation that equilibration
performs on it, scaling by diagonals and a cost factor.
-/
namespace ConicScaling

/-- What admits line norms, diagonal products and scalar products. -/
class Scalable (μ : Type) (α : outParam Type) where
  norms? (axis : Axis) (M : μ) (out : Array α) : Except (Fault α) (Array α)
  scale (L R : Diagonal α) : EStateM (Fault α) μ Unit
  multiply (c : α) : EStateM (Fault α) μ Unit

instance {α : Type} [Scalar α] : Scalable (DataMatrix α) α where
  norms? := DataMatrix.norms?
  scale := DataMatrix.scale
  multiply c := modify (DataMatrix.multiplied c)

structure Data (μ α : Type) where
  P : μ
  A : μ
  q : Array α
  b : Array α
  deriving DecidableEq, Repr

variable {μ α : Type} [Scalar α] [Scalable μ α]

/-- The norms of the columns of `P` on top of `A`, and of the rows of `A`. Only the lengths of the
given vectors matter. -/
def kktNorms? (P A : μ) (cols rows : Array α) : Except (Fault α) (Array α × Array α) := do
  let cols ← Scalable.norms? .column P (cols.map fun _ => 0)
  let cols ← Scalable.norms? .column A cols
  let rows ← Scalable.norms? .row A (rows.map fun _ => 0)
  return (cols, rows)

namespace Data

variable {β : Type}

def onP : EStateM (Fault α) μ β → EStateM (Fault α) (Data μ α) β :=
  focus P fun P d => { d with P }

def onA : EStateM (Fault α) μ β → EStateM (Fault α) (Data μ α) β :=
  focus A fun A d => { d with A }

def onq : EStateM (Fault α) (Array α) β → EStateM (Fault α) (Data μ α) β :=
  focus q fun q d => { d with q }

def onb : EStateM (Fault α) (Array α) β → EStateM (Fault α) (Data μ α) β :=
  focus b fun b d => { d with b }

/-- Multiplies the objective by `c`. -/
def multiplyCost (c : α) : EStateM (Fault α) (Data μ α) Unit := do
  onP (Scalable.multiply c)
  onq (modify fun q => q.map fun v => v * c)

/-- Replaces `P` by `c · D · P · D`, `A` by `E · A · D`, `q` by `c · D · q` and `b` by `E · b`, in
that order. What was changed before a failure stays changed. -/
def scale (D E : Diagonal α) (c : α) : EStateM (Fault α) (Data μ α) Unit := do
  onP (Scalable.scale D D)
  onA (Scalable.scale E D)
  onq D.scaleVector
  onb E.scaleVector
  if !Scalar.same c 1 then multiplyCost c

end Data

end ConicScaling
