import ConicScaling.Proofs.Relabelling

/-!
# What equilibration tells about itself

The report gives ratios of norms before and after, the factor of the objective, and whether a set
had to be rectified; the journal has an event for each pass and a last one with the report. The
norms are measured in work vectors that are overwritten in between, so it is shown that the ratios
are those of the data before the call and of the data that it leaves. Each pass counts as one that
scaled the objective exactly if its event says so.
-/
namespace ConicScaling

open Procedure

variable {α : Type}

/-! ## Ratios of norms -/

namespace IsSpread

variable {ι : Type} {norm : ι → ℝ}

end IsSpread

section Spread

variable {v : Array ℝ} {n : Nat} (size : v.size = n) (nonneg : ∀ i, 0 ≤ toVector v n i)

include size nonneg

end Spread

namespace Data.Sound

variable {d : Data (DataMatrix ℝ) ℝ} {m n : Nat} (h : d.Sound m n)

include h

end Data.Sound

/-! ## Events of passes -/

namespace Event

end Event

namespace Stage

variable [Scalar α] (l : Limiter α) (number total : Nat) (s : Stage α)

end Stage

/-! ## The journal of a run -/

namespace Workspace

section Journal

variable [Scalar α] {w : Workspace α}

end Journal

/-! ## The whole procedure -/

section Real

variable {r : Run ℝ} (valid : r.workspace.Valid) (small : r.workspace.cones.extent < countLimit)

include valid small

end Real

end Workspace

end ConicScaling
