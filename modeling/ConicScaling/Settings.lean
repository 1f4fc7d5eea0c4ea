import ConicScaling.Limiter
import ConicScaling.Value

/-!
# Settings

How many passes to make and within which bounds, read from dynamic values and checked.
-/
namespace ConicScaling

variable {α : Type} [Scalar α]

/-- Bounds that settings may have: positive, and enclosing one. -/
def Admissible (low high : α) : Prop := 0 < low ∧ low ≤ 1 ∧ 1 ≤ high

instance (low high : α) : Decidable (Admissible low high) := by unfold Admissible; infer_instance

/-- Only bounds that passed their check are stored. The two flags are kept as they were given and
only tested for truth. -/
structure Settings (α : Type) [Scalar α] where
  passes : Nat
  minScaling : α
  maxScaling : α
  reverseData : Value α
  verbose : Value α
  admissible : Admissible minScaling maxScaling

/-- Where settings are read from: a value, an object with attributes, or settings themselves. -/
inductive Source (α : Type) [Scalar α]
  | value (v : Value α)
  | object (attributes : List (String × Value α))
  | settings (s : Settings α)

/-- Numbers for which the bounds of the standard settings are admissible. -/
class Scalar.Standard (α : Type) [Scalar α] : Prop where
  admissible : Admissible (Scalar.decimal 1 (-4) : α) (Scalar.decimal 1 4)

instance : Scalar.Standard Float := ⟨by decide⟩

namespace Settings

/-- The setting of a given name. -/
def field? (s : Settings α) (name : String) : Option (Value α) :=
  match name with
  | "scaling" => some (.integer s.passes)
  | "min_scaling" => some (.real s.minScaling)
  | "max_scaling" => some (.real s.maxScaling)
  | "reverse_scale_problem_data" => some s.reverseData
  | "verbose" => some s.verbose
  | _ => none

/-- What a setting is when it is not given; `none` for names that no setting has. -/
def default? (name : String) : Option (Value α) :=
  match name with
  | "scaling" => some (.integer 10)
  | "min_scaling" => some (.real (Scalar.decimal 1 (-4)))
  | "max_scaling" => some (.real (Scalar.decimal 1 4))
  | "reverse_scale_problem_data" => some (.bool true)
  | "verbose" => some (.bool false)
  | _ => none

/-- Builds settings from a look-up of names. All numbers are converted before any is checked. -/
def build? (get : String → Option (Value α)) : Except (Fault α) (Settings α) := do
  let read (name : String) : Value α := (get name).getD ((default? name).getD .null)
  let passes ← (read "scaling").toInteger?
  let minScaling ← (read "min_scaling").toScalar?
  let maxScaling ← (read "max_scaling").toScalar?
  if passes < 0 then throw (.negativePasses passes)
  if admissible : Admissible minScaling maxScaling then
    return {
      passes := passes.toNat
      minScaling
      maxScaling
      reverseData := read "reverse_scale_problem_data"
      verbose := read "verbose"
      admissible }
  else throw (.invalidBounds minScaling maxScaling)

/-- Builds settings from named arguments, of which none may be unknown. -/
def ofArguments? (arguments : List (String × Value α)) : Except (Fault α) (Settings α) :=
  match arguments.find? fun a => (default? a.1 : Option (Value α)).isNone with
  | some a => .error (.unknownSetting a.1)
  | none => build? fun name => arguments.lookup name

/-- Reads settings. Nothing, and a value that has no fields, stands for the standard ones. -/
def ofSource? : Source α → Except (Fault α) (Settings α)
  | .value v => build? fun name => v.field? name
  | .object attributes => build? fun name => attributes.lookup name
  | .settings s => .ok s

/-- The settings to go on with: those that are given, and the current ones where none are. -/
def chosen? (current : Settings α) : Option (Source α) → Except (Fault α) (Settings α)
  | none | some (.value .null) => .ok current
  | some source => ofSource? source

/-- The settings of a caller who asks for nothing. -/
def standard [Scalar.Standard α] : Settings α where
  passes := 10
  minScaling := Scalar.decimal 1 (-4)
  maxScaling := Scalar.decimal 1 4
  reverseData := .bool true
  verbose := .bool false
  admissible := Scalar.Standard.admissible

/-- The defaults pass their own check. -/
theorem ofSource?_null [Scalar.Standard α] : ofSource? (.value .null : Source α) = .ok standard :=
  dif_pos Scalar.Standard.admissible

/-- Bounds for scaling factors, with one in place of norms that are not positive. -/
def limiter (s : Settings α) : Limiter α := ⟨s.minScaling, s.maxScaling, 1⟩

end Settings

/-- The field of a given name, or a default. -/
def Source.get (source : Source α) (name : String) (default : Value α) : Value α :=
  match source with
  | .value v => (v.field? name).getD default
  | .object attributes => (attributes.lookup name).getD default
  | .settings s => (s.field? name).getD default

end ConicScaling
