import ConicScaling.Cone.Rectify
import ConicScaling.Cone.Rescale
import ConicScaling.Workspace

/-!
# Equilibration

A fixed number of passes, each of which measures the lines of the data, limits the norms, and
divides by their square roots, followed by one factor for the objective. Sets whose rows have to be
scaled alike are rectified at the end, and the inverses are formed once.
-/
namespace ConicScaling.Workspace

open Procedure

variable {α : Type} [Scalar α]

/-- The cost factor so far and the number of passes that contributed to it. -/
structure Progress (α : Type) where
  cost : α
  costPasses : Nat

/-- Puts the norms of the columns of `P` on top of `A`, and of the rows of `A`, into the work
vectors. -/
def measure : Procedure α Unit := do
  let w ← workspace
  let (cols, rows) ← MonadExcept.ofExcept
    (kktNorms? w.data.P w.data.A w.scaling.Dinv w.scaling.Einv)
  onScaling (modify fun s => { s with Dinv := cols, Einv := rows })

/-- Turns measured norms into factors. -/
def factors (l : Limiter α) (norms : Array α) : Array α := invSqrt (l.limitVector norms)

def formFactors : Procedure α Unit := do
  let l := (← workspace).settings.limiter
  onScaling (modify fun s => { s with Dinv := factors l s.Dinv, Einv := factors l s.Einv })

/-- Multiplies `D` by the factors for columns. -/
def accumulateD : Procedure α Unit := do
  let d := (← workspace).scaling.Dinv
  onScaling (focus Scaling.D (fun D s => { s with D }) (Diagonal.entries d).scaleVector)

/-- Multiplies `E` by the factors for rows. -/
def accumulateE : Procedure α Unit := do
  let e := (← workspace).scaling.Einv
  onScaling (focus Scaling.E (fun E s => { s with E }) (Diagonal.entries e).scaleVector)

/-- Scales the data by the factors in the work vectors and accumulates them. -/
def applyFactors : Procedure α Unit := do
  let s := (← workspace).scaling
  onData (Data.scale (.entries s.Dinv) (.entries s.Einv) 1)
  accumulateD
  accumulateE

/-- The factor that brings the larger of the norm of `q` and the mean column norm of `P` to one, as
far as the limits allow. -/
def costFactor (l : Limiter α) (maxNorm meanNorm : α) : α :=
  1 / l.limit (Scalar.raise (l.limit maxNorm) meanNorm)

/-- Scales the objective, unless `P` or `q` is zero. -/
def scaleCost (pass : Nat) (progress : Progress α) : Procedure α (Progress α) := do
  let w ← workspace
  let norms ← MonadExcept.ofExcept
    (Scalable.norms? .column w.data.P (w.scaling.Dinv.map fun _ => 0))
  onScaling (modify fun s => { s with Dinv := norms })
  let meanNorm := mean norms
  let maxNorm := infNorm w.data.q
  if !Scalar.same meanNorm 0 && !Scalar.same maxNorm 0 then
    let factor := costFactor w.settings.limiter maxNorm meanNorm
    onData (Data.multiplyCost factor)
    let cost := progress.cost * factor
    log (.costScaled pass w.settings.passes factor cost)
    return ⟨cost, progress.costPasses + 1⟩
  else
    log (.costSkipped pass w.settings.passes meanNorm maxNorm)
    return progress

/-- One pass. -/
def pass (number : Nat) (progress : Progress α) : Procedure α (Progress α) := do
  measure
  formFactors
  applyFactors
  scaleCost number progress

/-- The passes from a given number on. -/
def passes (number : Nat) (progress : Progress α) : Nat → Procedure α (Progress α)
  | 0 => pure progress
  | left + 1 => do
    let progress ← pass number progress
    passes (number + 1) progress left

/-- Runs a rectification on the work vector for rows. -/
def onDraft {β : Type} : Rectification α β → Procedure α β :=
  focus (fun r => ⟨r.workspace.scaling.Einv, r.journal⟩) fun d r =>
    { r with workspace.scaling.Einv := d.work, journal := d.journal }

/-- Gives every block that needs it a single factor. The data are only touched if some block
changes. -/
def rectify : Procedure α Bool := do
  let w ← workspace
  if !w.cones.uniformScaling then return false
  let changed ← onDraft (w.cones.rectifySets w.scaling.E)
  if changed then
    let e := (← workspace).scaling.Einv
    onData (Data.scale .identity (.entries e) 1)
    accumulateE
    log .rectified
  return changed

/-- The correction that the scaling of the rows would need, worked out in a given vector. -/
def correctionOf (work : Array α) : Procedure α (Bool × Array α) := do
  let r ← get
  focus (fun _ => Draft.mk work r.journal) (fun d r => { r with journal := d.journal }) do
    let changed ← r.workspace.cones.rectifySets r.workspace.scaling.E
    return (changed, (← get).work)

/-- Makes `P` symmetric if it is not. -/
def symmetrize : Procedure α Unit := do
  let P := (← workspace).data.P
  if !P.isSymmetric then onData (Data.onP DataMatrix.symmetrize)

/-- Forms the inverse scalings and keeps the cost factor, whose inverse may not exist. -/
def invert (cost : α) : Procedure α Unit := do
  onScaling (modify fun s =>
    { s with Dinv := s.D.map Scalar.reciprocal, Einv := s.E.map Scalar.reciprocal, c := cost })
  if Scalar.same cost 0 then throw .divisionByZero
  onScaling (modify fun s => { s with cinv := 1 / cost })

def onX : EStateM (Fault α) (Array α) Unit → Procedure α Unit :=
  fun act => onIterates (focus Iterates.x (fun x i => { i with x }) act)

def onS : EStateM (Fault α) (Array α) Unit → Procedure α Unit :=
  fun act => onIterates (focus Iterates.s (fun s i => { i with s }) act)

def onMu : EStateM (Fault α) (Array α) Unit → Procedure α Unit :=
  fun act => onIterates (focus Iterates.mu (fun mu i => { i with mu }) act)

/-- Multiplies every entry. -/
def multiplyVector (c : α) : EStateM (Fault α) (Array α) Unit := modify fun v => v.map (· * c)

/-- Maps the iterates into scaled units. -/
def scaleIterates : Procedure α Unit := do
  let s := (← workspace).scaling
  onX (Diagonal.entries s.Dinv).scaleVector
  onMu (Diagonal.entries s.Einv).scaleVector
  onS (Diagonal.entries s.E).scaleVector
  onMu (multiplyVector s.c)

/-- Scales the boxes by the final scaling of the rows. -/
def scaleCones : Procedure α Unit := do
  let e := (← workspace).scaling.E
  onCones (Cone.scale e)

/-- Equilibrates from a scaling of ones, in whatever phase the workspace is. -/
def ruiz : Procedure α (Report α) := do
  resetScaling
  measure
  let before := (← workspace).scaling
  let passCount := (← workspace).settings.passes
  let progress ← passes 1 ⟨1, 0⟩ passCount
  let rectified ← rectify
  if 0 < passCount || rectified then symmetrize
  scaleCones
  measure
  let after := (← workspace).scaling
  invert progress.cost
  scaleIterates
  return {
    passes := passCount
    costScale := progress.cost
    costScaledPasses := progress.costPasses
    rectified
    colSpreadBefore := spread before.Dinv
    colSpreadAfter := spread after.Dinv
    rowSpreadBefore := spread before.Einv
    rowSpreadAfter := spread after.Einv }

/-- Equilibrates a workspace that is still raw, with new settings if any are given. -/
def equilibrate (given : Option (Source α)) : Procedure α (Report α) := do
  let w ← workspace
  if w.phase ≠ .raw then throw (.notRaw w.phase)
  let settings ← MonadExcept.ofExcept (w.settings.chosen? given)
  modify fun r => { r with workspace.settings := settings }
  let report ← ruiz
  setPhase .scaled
  let verbose := (← workspace).settings.verbose.isTrue
  log (.equilibrated (if verbose then .info else .debug) report)
  return report

end ConicScaling.Workspace
