import ConicScaling.Cone
import ConicScaling.Diagonal

/-!
# Scaling sets

When rows are scaled, the bounds of boxes on them follow, and a vector splits along the blocks.
-/
namespace ConicScaling

variable {α : Type} [Scalar α]

/-- Multiplies the bounds of a box by the factors of its rows. A single factor multiplies all of
them, however many bounds there are. -/
def Block.rescale? (e : Array α) : Block α → Except (Fault α) (Block α)
  | .box lower upper =>
    let e := Diagonal.expand lower.size e
    if e.size = lower.size then .ok (.box (Diagonal.times e lower) (Diagonal.times e upper))
    else .error .lengthMismatch
  | b => .ok b

namespace Cone

mutual

/-- Scales the boxes from left to right. On a fault the boxes before it stay scaled. -/
def rescale (e : Array α) : Cone α → Cone α × Option (Fault α)
  | block b =>
    match b.rescale? e with
    | .ok b => (block b, none)
    | .error f => (block b, some f)
  | product members =>
    let (members, fault) := rescaleMembers e members (rows members)
    (product members, fault)

def rescaleMembers (e : Array α) :
    List (Cone α) → List RowRange → List (Cone α) × Option (Fault α)
  | c :: cs, rows :: rest =>
    match c.rescale (rows.read e) with
    | (c, some f) => (c :: cs, some f)
    | (c, none) =>
      let (cs, fault) := rescaleMembers e cs rest
      (c :: cs, fault)
  | cs, _ => (cs, none)

end

/-- Scales the boxes by the factors of their rows. -/
def scale (e : Array α) : EStateM (Fault α) (Cone α) Unit := fun c =>
  match c.rescale e with
  | (c, none) => .ok () c
  | (c, some f) => .error f c

/-- The parts of a vector that belong to the members of a product. -/
def split? (v : Array α) : Cone α → Except (Fault α) (List (Array α))
  | block _ => .error .noBlocks
  | product members =>
    if v.size = (product members).dim then
      .ok ((rows members).map fun rows => rows.read v)
    else .error (.splitLength v.size (product members).dim)

end Cone

end ConicScaling
