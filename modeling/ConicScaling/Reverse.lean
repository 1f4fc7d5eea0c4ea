import ConicScaling.Equilibrate

/-!
# Back to the units of the caller

The stored inverses map the iterates back and, if the settings ask for it, the data and the bounds
of boxes as well.
-/
namespace ConicScaling.Workspace

open Procedure

variable {α : Type} [Scalar α]

/-- Maps the iterates back. -/
def reverseIterates : Procedure α Unit := do
  let s := (← workspace).scaling
  onX (Diagonal.entries s.D).scaleVector
  onS (Diagonal.entries s.Einv).scaleVector
  onMu (Diagonal.entries s.E).scaleVector
  onMu (multiplyVector s.cinv)

/-- Maps the data and the boxes back. -/
def reverseData : Procedure α Unit := do
  let s := (← workspace).scaling
  onData (Data.scale (.entries s.Dinv) (.entries s.Einv) s.cinv)
  onCones (Cone.scale s.Einv)

/-- Maps a workspace back, in whatever phase it is. -/
def unscale : Procedure α Unit := do
  reverseIterates
  if (← workspace).settings.reverseData.isTrue then reverseData

/-- Maps an equilibrated workspace back. -/
def reverse : Procedure α Unit := do
  let phase := (← workspace).phase
  if phase ≠ .scaled then throw (.notScaled phase)
  unscale
  setPhase .unscaled
  log .reversed

end ConicScaling.Workspace
