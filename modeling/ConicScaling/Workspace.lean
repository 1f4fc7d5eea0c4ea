import ConicScaling.Cone.Build
import ConicScaling.Operand.Intake
import ConicScaling.Settings

/-!
# Workspaces

Everything that one solve owns: problem data, sets, settings, scaling and iterates. A workspace is
validated as it is set up, so that later steps find lengths that agree.
-/
namespace ConicScaling

/-- Scaling takes `P` to `c D P D`, `q` to `c D q`, `A` to `E A D` and `b` to `E b`. The inverses
are formed at the end; until then they are work vectors. -/
structure Scaling (α : Type) where
  D : Array α
  E : Array α
  Dinv : Array α
  Einv : Array α
  c : α
  cinv : α
  deriving DecidableEq, Repr

structure Iterates (α : Type) where
  x : Array α
  s : Array α
  mu : Array α
  deriving DecidableEq, Repr

structure Workspace (α : Type) [Scalar α] where
  data : Data (DataMatrix α) α
  cones : Cone α
  settings : Settings α
  scaling : Scaling α
  iterates : Iterates α
  phase : Phase

/-- A workspace and what was recorded about it. -/
structure Run (α : Type) [Scalar α] where
  workspace : Workspace α
  journal : Journal α

/-- What may fail, changes a workspace and records events. -/
abbrev Procedure (α : Type) [Scalar α] := EStateM (Fault α) (Run α)

variable {α β : Type} [Scalar α]

def ones (n : Nat) : Array α := Array.replicate n 1

namespace Scaling

def identity (n m : Nat) : Scaling α := ⟨ones n, ones m, ones n, ones m, 1, 1⟩

/-- Sets every factor to one. -/
def reset (s : Scaling α) : Scaling α :=
  ⟨ones s.D.size, ones s.E.size, ones s.Dinv.size, ones s.Einv.size, 1, 1⟩

end Scaling

def Iterates.zeros (n m : Nat) : Iterates α :=
  ⟨Array.replicate n 0, Array.replicate m 0, Array.replicate m 0⟩

namespace Workspace

/-- The number of variables. -/
def n (w : Workspace α) : Nat := w.data.A.storage.count .column

/-- The number of rows. -/
def m (w : Workspace α) : Nat := w.data.A.storage.count .row

end Workspace

namespace Procedure

def onData : EStateM (Fault α) (Data (DataMatrix α) α) β → Procedure α β :=
  focus (·.workspace.data) fun data r => { r with workspace.data := data }

def onCones : EStateM (Fault α) (Cone α) β → Procedure α β :=
  focus (·.workspace.cones) fun cones r => { r with workspace.cones := cones }

def onScaling : EStateM (Fault α) (Scaling α) β → Procedure α β :=
  focus (·.workspace.scaling) fun scaling r => { r with workspace.scaling := scaling }

def onIterates : EStateM (Fault α) (Iterates α) β → Procedure α β :=
  focus (·.workspace.iterates) fun iterates r => { r with workspace.iterates := iterates }

def onJournal : Logged α β → Procedure α β :=
  focus (·.journal) fun journal r => { r with journal }

def log (e : Event α) : Procedure α Unit := onJournal (record e)

def workspace : Procedure α (Workspace α) := return (← get).workspace

def setPhase (phase : Phase) : Procedure α Unit :=
  modify fun r => { r with workspace.phase := phase }

end Procedure

/-- The parts of a problem as a caller hands them over. -/
structure Submission (α : Type) [Scalar α] where
  P : Operand α
  q : Operand α
  A : Operand α
  b : Operand α
  cones : Member α
  settings : Source α
  x : Option (Operand α)
  s : Option (Operand α)
  mu : Option (Operand α)

namespace Workspace

open Procedure

/-- Converts the data and checks that their sizes agree. -/
def intakeData (p : Submission α) : Logged α (Data (DataMatrix α) α × Cone α) := do
  let A ← p.A.intakeMatrix .A
  let (m, n) := A.storage.shape
  let P ← p.P.intakeMatrix .P
  if P.storage.shape ≠ (n, n) then throw (.notSquareOf P.storage.shape m n)
  let q ← p.q.intakeVector .q n
  let b ← p.b.intakeVector .b m
  let cones ← MonadExcept.ofExcept p.cones.toProduct?
  if cones.dim ≠ m then throw (.coneDimension cones.dim m)
  return (⟨P, A, q, b⟩, cones)

/-- Converts one iterate and stores it. A missing value leaves it as it is. -/
def startIterate (input : Input) (n : Nat) (store : Array α → Iterates α → Iterates α) :
    Option (Operand α) → Procedure α Unit
  | none | some (.value .null) => pure ()
  | some v => do
    let v ← onJournal (v.intakeVector input n)
    onIterates (modify (store v))

/-- Sets initial iterates, in the units of the caller and only before equilibration. Those that
were stored before one is refused stay. -/
def warmStart (x s mu : Option (Operand α)) : Procedure α Unit := do
  let w ← workspace
  if w.phase ≠ .raw then throw .lateWarmStart
  startIterate .x w.n (fun x i => { i with x }) x
  startIterate .s w.m (fun s i => { i with s }) s
  startIterate .mu w.m (fun mu i => { i with mu }) mu

/-- A workspace with nothing scaled yet and zero iterates. -/
def fresh (data : Data (DataMatrix α) α) (cones : Cone α) (settings : Settings α) : Workspace α :=
  let (m, n) := data.A.storage.shape
  ⟨data, cones, settings, .identity n m, .zeros n m, .raw⟩

/-- Sets up a workspace. -/
def setUp (p : Submission α) : Logged α (Workspace α) := do
  let (data, cones) ← intakeData p
  let settings ← MonadExcept.ofExcept (Settings.ofSource? p.settings)
  fun journal =>
    match warmStart p.x p.s p.mu ⟨fresh data cones settings, journal⟩ with
    | .ok _ r => .ok r.workspace r.journal
    | .error f r => .error f r.journal

/-- Sets up a new workspace on the data and sets of this one. -/
def renew (settings : Source α) : Procedure α Unit := do
  let w ← workspace
  let p : Submission α := {
    P := .stored (.real w.data.P.precision w.data.P.storage)
    q := .ofVector w.data.q
    A := .stored (.real w.data.A.precision w.data.A.storage)
    b := .ofVector w.data.b
    cones := .set w.cones
    settings
    x := none
    s := none
    mu := none }
  let w ← onJournal (setUp p)
  modify fun r => { r with workspace := w }

/-- Undoes all scaling factors, and nothing else. -/
def resetScaling : Procedure α Unit := onScaling (modify Scaling.reset)

/-- Overwrites the entries of a vector. -/
def overwrite (v : Array α) : EStateM (Fault α) (Array α) Unit :=
  modify? fun old => if v.size = old.size then .ok v else .error .lengthMismatch

/-- Overwrites an iterate or a vector of the data, as a solver does; a matrix stays as it is. -/
def assign (input : Input) (v : Array α) : Procedure α Unit :=
  match input with
  | .q => onData (Data.onq (overwrite v))
  | .b => onData (Data.onb (overwrite v))
  | .x => onIterates (focus Iterates.x (fun x i => { i with x }) (overwrite v))
  | .s => onIterates (focus Iterates.s (fun s i => { i with s }) (overwrite v))
  | .mu => onIterates (focus Iterates.mu (fun mu i => { i with mu }) (overwrite v))
  | .P | .A => pure ()

end Workspace

end ConicScaling
