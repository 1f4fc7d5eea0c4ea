import ConicScaling.Proofs.Checks
import ConicScaling.Reverse

/-!
# Calls on a workspace

A caller sets initial iterates, equilibrates and maps back in any order and with any arguments. A
call that fails leaves what it had changed, and the next one is made on that.
-/
namespace ConicScaling

open Procedure

variable {α : Type} [Scalar α]

inductive Call (α : Type) [Scalar α]
  | warmStart (x s mu : Option (Operand α))
  | equilibrate (settings : Option (Source α))
  | reverse

namespace Call

def perform : Call α → Procedure α Unit
  | warmStart x s mu => Workspace.warmStart x s mu
  | equilibrate settings => do let _ ← Workspace.equilibrate settings
  | reverse => Workspace.reverse

/-- The phase that a call is for. -/
def phase : Call α → Phase
  | warmStart .. | equilibrate _ => .raw
  | reverse => .scaled

/-- The fault of a call in a phase that it is not for. -/
def refusal (found : Phase) : Call α → Fault α
  | warmStart .. => .lateWarmStart
  | equilibrate _ => .notRaw found
  | reverse => .notScaled found

/-- Whether the iterates that a call is given have the right lengths. -/
def Fits (m n : Nat) : Call α → Prop
  | warmStart x s mu =>
    (∀ v ∈ x, v.Lists n) ∧ (∀ v ∈ s, v.Lists m) ∧ ∀ v ∈ mu, v.Lists m
  | _ => True

end Call

/-- A call, the fault that it ended with, and the workspaces that it found and left. -/
structure Step (α : Type) [Scalar α] where
  before : Workspace α
  call : Call α
  fault : Option (Fault α)
  after : Workspace α

/-- What happens when calls are made one after the other. -/
def history : List (Call α) → Run α → List (Step α)
  | [], _ => []
  | call :: calls, r =>
    let (fault, next) := ended (call.perform.run r)
    ⟨r.workspace, call, fault, next.workspace⟩ :: history calls next

/-- What every call keeps holds before each call that is made. -/
theorem exists_run_of_mem_history {I : Run α → Prop}
    (keeps : ∀ (call : Call α) (r : Run α), I r → I (ended (call.perform.run r)).2)
    {calls : List (Call α)} {r : Run α} (start : I r) {step : Step α}
    (made : step ∈ history calls r) :
    ∃ r' : Run α, I r' ∧ step.before = r'.workspace ∧
      step.after = (ended (step.call.perform.run r')).2.workspace := by
  induction calls generalizing r with
  | nil => cases made
  | cons call calls ih =>
    rcases List.mem_cons.1 made with rfl | later
    · exact ⟨r, start, rfl, rfl⟩
    · exact ih (keeps call r start) later

end ConicScaling
