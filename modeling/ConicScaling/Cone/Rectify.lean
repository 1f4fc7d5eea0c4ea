import ConicScaling.Event
import ConicScaling.Limiter

/-!
# Rectification

A set whose rows have to be scaled alike corrects its part of a scaling to a single factor, the
geometric mean. That keeps the product of the factors, so the block keeps its volume.
-/
namespace ConicScaling

variable {α β : Type} [Scalar α]

/-- The relative spread up to which a block counts as scaled alike. -/
def uniformTolerance : α := Scalar.decimal 1 (-14)

def isUniform (e : Array α) : Bool :=
  if e.size ≤ 1 then true
  else decide (largest e - smallest e ≤ uniformTolerance * largest e)

def geometricMean (e : Array α) : α := Scalar.exp (mean (e.map Scalar.log))

/-- The factors that turn every entry of `e` into the geometric mean. -/
def correction (e : Array α) : Array α := e.map fun x => geometricMean e / x

/-- A correction in the making, and what was recorded on the way. -/
structure Draft (α : Type) where
  work : Array α
  journal : Journal α

abbrev Rectification (α : Type) := EStateM (Fault α) (Draft α)

namespace Draft

/-- Runs a rectification on some of the rows. -/
def onRows (rows : RowRange) : Rectification α β → Rectification α β :=
  focus (fun d => { d with work := rows.read d.work })
    fun part d => { work := rows.write part.work d.work, journal := part.journal }

def onJournal : Logged α β → Rectification α β :=
  focus journal fun journal d => { d with journal }

end Draft

/-- Writes the correction of `e`, unless it is uniform already. Tells whether it was written. -/
def rectifyVector (e : Array α) : Rectification α Bool := do
  if isUniform e then return false
  modify? fun d =>
    if e.size = d.work.size then .ok { d with work := correction e } else .error .lengthMismatch
  return true

namespace Cone

mutual

/-- Writes the corrections of all blocks and tells whether there was any. -/
def rectify (e : Array α) : Cone α → Rectification α Bool
  | block b => if b.uniformScaling then rectifyVector e else pure false
  | product members => rectifyMembers e members (rows members)

def rectifyMembers (e : Array α) : List (Cone α) → List RowRange → Rectification α Bool
  | c :: cs, rows :: rest => do
    let changed ← Draft.onRows rows (c.rectify (rows.read e))
    if changed then Draft.onJournal (record (.rectifiedBlock c rows))
    let others ← rectifyMembers e cs rest
    return changed || others
  | _, _ => pure false

end

/-- Rectifies from a correction of all ones. -/
def rectifySets (e : Array α) (c : Cone α) : Rectification α Bool := do
  modify fun d => { d with work := d.work.map fun _ => 1 }
  c.rectify e

end Cone

end ConicScaling
