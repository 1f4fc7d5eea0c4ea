import ConicScaling.Cone.Block
import ConicScaling.RowRange

/-!
# Products of sets

The rows of a problem are constrained by a product of sets, in order, which may itself contain
products. Where a member begins is a 64-bit sum of the row counts before it, so it can wrap.
-/
namespace ConicScaling

inductive Cone (α : Type)
  | block (block : Block α)
  | product (members : List (Cone α))

namespace Cone

variable {α β : Type}

mutual

def dim : Cone α → Nat
  | block b => b.dim
  | product members => ((rowCounts (dims members)).foldl (· + ·) 0).toNatClampNeg

def dims : List (Cone α) → List Nat
  | [] => []
  | c :: cs => c.dim :: dims cs

end

/-- The sum of the row counts, in 64 bits. -/
def span (members : List (Cone α)) : Int64 := (rowCounts (dims members)).foldl (· + ·) 0

/-- The rows of each member of a product. -/
def rows (members : List (Cone α)) : List RowRange :=
  RowRange.consecutive 0 (rowCounts (dims members))

/-- Where each member begins, and where the last one ends. -/
def offsets (members : List (Cone α)) : List Int64 := 0 :: (rows members).map RowRange.stop

theorem dims_eq_map (members : List (Cone α)) : dims members = members.map dim := by
  induction members with
  | nil => rfl
  | cons c cs ih => simp [dims, ih]

@[simp] theorem length_rows (members : List (Cone α)) : (rows members).length = members.length := by
  simp [rows, dims_eq_map]

mutual

/-- Whether some set in the product needs its rows scaled alike. -/
def uniformScaling : Cone α → Bool
  | block b => b.uniformScaling
  | product members => someUniform members

def someUniform : List (Cone α) → Bool
  | [] => false
  | c :: cs => c.uniformScaling || someUniform cs

end

mutual

/-- The elementary sets, from left to right. -/
def leaves : Cone α → List (Block α)
  | block b => [b]
  | product members => leavesOf members

def leavesOf : List (Cone α) → List (Block α)
  | [] => []
  | c :: cs => c.leaves ++ leavesOf cs

end

/-- The bounds of each box, from left to right. -/
def boxes (c : Cone α) : List (Array α × Array α) := c.leaves.filterMap Block.bounds?

def members : Cone α → List (Cone α)
  | block b => [block b]
  | product members => members

mutual

/-- The set as messages show it. -/
def text : Cone Float → String
  | block b => b.text
  | product members => Kind.product.label ++ "([" ++ ", ".intercalate (texts members) ++ "])"

def texts : List (Cone Float) → List String
  | [] => []
  | c :: cs => c.text :: texts cs

end

end Cone

end ConicScaling
