import ConicScaling.Problem
import ConicScaling.Storage.Triplets
import ConicScaling.Value

/-!
# Operands

What a caller may hand over where a matrix or a vector is expected: matrices of several number
types and formats, arrays with any number of axes, and plain values. Elementwise operations accept
dense and compressed matrices only, and scale none but those of real numbers.
-/
namespace ConicScaling

/-- A container of real numbers, of 64-bit integers, or of truth values. -/
inductive Numbers (α : Type) (F : Type → Type)
  | real (precision : Precision) (x : F α)
  | integer (x : F Int64)
  | boolean (x : F Bool)

def Numbers.typeName {α : Type} {F : Type → Type} : Numbers α F → String
  | real .double _ => "float64"
  | real .single _ => "float32"
  | integer _ => "int64"
  | boolean _ => "bool"

inductive Operand (α : Type)
  | stored (M : Numbers α Storage)
  | triplets (format : TripletFormat) (T : Numbers α Triplets)
  /-- An array with a number of axes other than two. -/
  | array (T : Numbers α Tensor)
  | value (v : Value α)

/-- The rows of an array with two axes. -/
def Tensor.toStorage? {β : Type} (T : Tensor β) : Option (Storage β) :=
  match T.shape with
  | [rows, cols] =>
    some (.dense cols ((Array.range rows).map fun i => T.data.extract (i * cols) ((i + 1) * cols)))
  | _ => none

namespace Numbers

variable {α : Type}

def layout : Numbers α Storage → Layout
  | real _ S => S.layout
  | integer S => S.layout
  | boolean S => S.layout

def shape : Numbers α Storage → Nat × Nat
  | real _ S => S.shape
  | integer S => S.shape
  | boolean S => S.shape

variable [Scalar α]

def norms? (axis : Axis) (M : Numbers α Storage) (out : Array α) :
    Except (Fault α) (Array α) :=
  match M with
  | real _ S => S.norms? Scalar.abs axis out
  | integer S => S.norms? (fun n => ((n.abs.toInt : Int) : α)) axis out
  | boolean S => S.norms? Scalar.ofBool axis out

/-- The fault of scaling a matrix that cannot hold real numbers. It refuses the product, so a
compressed one looks for the entries first. -/
def refuse {β : Type} (S : Storage β) (axis : Axis) : Diagonal α → Except (Fault α) Unit
  | .identity => .ok ()
  | .entries d => do
    Diagonal.gather axis d.size S
    throw .inexactProduct

def refuseScale {β : Type} (S : Storage β) (L R : Diagonal α) : Except (Fault α) Unit := do
  refuse S S.productOrder.1 (S.productOrder.1.side L R)
  refuse S S.productOrder.2 (S.productOrder.2.side L R)

/-- Runs an action on a matrix of real numbers, and otherwise a check that changes nothing. -/
def onReal (act : EStateM (Fault α) (DataMatrix α) Unit)
    (other : {β : Type} → Storage β → Except (Fault α) Unit) :
    EStateM (Fault α) (Numbers α Storage) Unit := do
  match ← get with
  | real p S =>
    focus (fun _ => ⟨p, S⟩) (fun M _ => real M.precision M.storage) act
  | integer S => MonadExcept.ofExcept (other S)
  | boolean S => MonadExcept.ofExcept (other S)

def scale (L R : Diagonal α) : EStateM (Fault α) (Numbers α Storage) Unit :=
  onReal (DataMatrix.scale L R) fun S => refuseScale S L R

def multiply (c : α) : EStateM (Fault α) (Numbers α Storage) Unit :=
  onReal (modify (DataMatrix.multiplied c)) fun _ => .error .inexactProduct

def isSymmetric : Numbers α Storage → Bool
  | real p S => (DataMatrix.mk p S).isSymmetric
  | integer S => S.isSymmetric (· + ·) 0 (· == ·)
  | boolean S => S.isSymmetric (· || ·) false (· == ·)

/-- Half an integer, towards zero, computed as a real number. -/
def halfInteger (n : Int64) : Int64 :=
  Int64.ofInt ((Scalar.truncate? (Scalar.half ((n.toInt : Int) : α))).getD 0)

/-- Half the sum with the transpose. Dense integers stay integers and dense truth values stay
truth values; compressed ones become real numbers. -/
def symmetrized : Numbers α Storage → Numbers α Storage
  | real p S => real p (DataMatrix.mk p S).symmetrized.storage
  | integer S =>
    match S.layout with
    | .dense => integer (S.symmetrized (· + ·) 0 (· == 0) (halfInteger (α := α)))
    | _ => real .double (S.symmetrized (· + ·) 0 (· == 0) fun n =>
        Scalar.half ((n.toInt : Int) : α))
  | boolean S =>
    match S.layout with
    | .dense => boolean (S.symmetrized (· || ·) false (!·) id)
    | _ => real .double (S.symmetrized (· || ·) false (!·) fun b => Scalar.half (Scalar.ofBool b))

end Numbers

namespace Operand

variable {α : Type} [Scalar α]

/-- An array, which is a dense matrix if it has two axes. -/
def ofTensor : Numbers α Tensor → Operand α
  | .real p T => match T.toStorage? with
    | some S => stored (.real p S)
    | none => array (.real p T)
  | .integer T => match T.toStorage? with
    | some S => stored (.integer S)
    | none => array (.integer T)
  | .boolean T => match T.toStorage? with
    | some S => stored (.boolean S)
    | none => array (.boolean T)

def ofVector (v : Array α) : Operand α := array (.real .double (.ofVector v))

/-- The lengths along the axes; a plain value has none. -/
def shape? : Operand α → Except (Fault α) (List Nat)
  | stored M => .ok [M.shape.1, M.shape.2]
  | triplets _ (.real _ T) => .ok [T.rows, T.cols]
  | triplets _ (.integer T) => .ok [T.rows, T.cols]
  | triplets _ (.boolean T) => .ok [T.rows, T.cols]
  | array (.real _ T) => .ok T.shape
  | array (.integer T) => .ok T.shape
  | array (.boolean T) => .ok T.shape
  | value _ => .error .noShape

/-- The matrix that elementwise operations work on. -/
def storage? : Operand α → Except (Fault α) (Numbers α Storage)
  | stored M => .ok M
  | triplets format _ => .error (.unsupportedFormat format.label)
  | array _ => .error (.notMatrix "ndarray")
  | value v => .error (.notMatrix v.typeName)

/-- Runs an action on the matrix of an operand, if it has one. -/
def onStorage (act : EStateM (Fault α) (Numbers α Storage) Unit) :
    EStateM (Fault α) (Operand α) Unit := do
  let M ← MonadExcept.ofExcept (← get).storage?
  focus (fun _ => M) (fun M _ => stored M) act

def layout? (M : Operand α) : Except (Fault α) Layout := return (← M.storage?).layout

def norms? (axis : Axis) (M : Operand α) (out : Array α) : Except (Fault α) (Array α) := do
  (← M.storage?).norms? axis out

/-- Whether a matrix equals its transpose. One that is not square differs, whatever it holds. -/
def isSymmetric? (M : Operand α) : Except (Fault α) Bool := do
  match ← M.shape? with
  | rows :: cols :: _ =>
    if rows = cols then return (← M.storage?).isSymmetric else return false
  | _ => throw .tooFewAxes

/-- Replaces a square matrix by half the sum with its transpose. -/
def symmetrize : EStateM (Fault α) (Operand α) Unit :=
  onStorage (modify? fun M =>
    if M.shape.1 = M.shape.2 then .ok M.symmetrized else .error .notSquare)

instance : Scalable (Operand α) α where
  norms? := norms?
  scale L R := onStorage (Numbers.scale L R)
  multiply c := onStorage (Numbers.multiply c)

end Operand

end ConicScaling
