import ConicScaling.Proofs.Outcome
import ConicScaling.Scalar.Double

/-!
# Failing halfway

A call that fails should leave the workspace as it was. Rejected settings do, but the inverse of the
cost factor is only asked for after everything has been scaled, and in doubles the factor, a product
over all passes, can become zero.
-/
namespace ConicScaling.Workspace

section Outcomes

variable {α : Type} [Scalar α]

/-- Either the workspace is scaled, or it is the one that the call was made on. -/
def Settles (w : Workspace α) : EStateM.Result (Fault α) (Run α) (Report α) → Prop
  | .ok _ r => r.workspace.phase = .scaled
  | .error _ r => r.workspace = w

/-- Whether equilibration gets to its end. Where the cost factor has become zero or the rows of a
box do not fit it stops, and is only excused if what it leaves behind was there before. -/
def Passable (w original : Workspace α) : Prop :=
  (w.cones.Fits w.m →
    Scalar.same w.final.progress.cost 0 = false ∨ w.reached w.final = original) ∧
  (¬ w.cones.Fits w.m → w.stuck = original)

variable {r : Run α} {given : Option (Source α)}

/-- The factors of a fresh workspace are ones, and no number that equals zero is one. -/
theorem reached_ne {w original : Workspace α} (one : Scalar.same (1 : α) 0 = false)
    (unit : original.scaling.c = 1) (zero : Scalar.same w.final.progress.cost 0 = true) :
    w.reached w.final ≠ original := by
  rintro rfl
  have cost : w.final.progress.cost = 1 := unit
  rw [cost, one] at zero
  cases zero

theorem settles_iff_passable (valid : r.workspace.Valid) (raw : r.workspace.phase = .raw)
    {s : Settings α} (chosen : r.workspace.settings.chosen? given = .ok s) :
    Settles r.workspace ((equilibrate given).run r) ↔
      Passable { r.workspace with settings := s } r.workspace := by
  obtain ⟨journal, fitting, misfitting, -⟩ :=
    run_equilibrateChosen (r := { r with workspace.settings := s }) (valid.with_settings s)
  rw [run_equilibrate_of_chosen raw chosen]
  by_cases fits : r.workspace.cones.Fits r.workspace.m
  · have unstuck (misfit : ¬ r.workspace.cones.Fits r.workspace.m) :
        stuck { r.workspace with settings := s } = r.workspace := absurd fits misfit
    rw [fitting fits]
    cases zero : Scalar.same (final { r.workspace with settings := s }).progress.cost 0 with
    | true =>
      constructor
      · intro stopped
        exact ⟨fun _ => .inr stopped, unstuck⟩
      · intro passable
        rcases passable.1 fits with nonzero | stopped
        · exact absurd (nonzero.symm.trans zero) Bool.false_ne_true
        · exact stopped
    | false =>
      constructor
      · intro _
        exact ⟨fun _ => .inl zero, unstuck⟩
      · intro _
        rfl
  · rw [misfitting fits]
    constructor
    · intro stopped
      exact ⟨fun fit => absurd fit fits, fun _ => stopped⟩
    · intro passable
      exact passable.2 fits

end Outcomes

/-- In doubles a call on a raw workspace settles exactly if the settings are rejected or lead to
the end. -/
theorem equilibrate_settles_iff {r : Run Float} (valid : r.workspace.Valid)
    (raw : r.workspace.phase = .raw) (given : Option (Source Float)) :
    Settles r.workspace ((equilibrate given).run r) ↔
      ∀ s, r.workspace.settings.chosen? given = .ok s →
        Passable { r.workspace with settings := s } r.workspace := by
  cases chosen : r.workspace.settings.chosen? given with
  | error f =>
    rw [run_equilibrate_of_rejected raw chosen]
    constructor
    · intro _ s accepted
      cases accepted
    · intro _
      rfl
  | ok s =>
    rw [settles_iff_passable valid raw chosen]
    constructor
    · intro passable t same
      cases same
      exact passable
    · intro all
      exact all s rfl

/-- Whether all stored numbers of the data are finite. -/
def isFinite (d : Data (DataMatrix Float) Float) : Bool :=
  (d.P.storage.entries.map Entry.value ++ d.A.storage.entries.map Entry.value ++ d.q.toList ++
    d.b.toList).all fun x => (Scalar.truncate? x).isSome

/-- A plain objective with a huge linear term, and bounds that leave it room. -/
def vanishing : Workspace Float where
  data :=
    { P := ⟨.double, .dense 1 #[#[1.0]]⟩
      A := ⟨.double, .dense 1 #[#[0.0]]⟩
      q := #[1e300]
      b := #[0.0] }
  cones := .product [.block (.nonnegative 1)]
  settings := ⟨2, 1e-300, 1e300, .bool true, .bool false, by decide +kernel⟩
  scaling := .identity 1 1
  iterates := .zeros 1 1
  phase := .raw

theorem valid_vanishing : vanishing.Valid where
  data := by constructor <;> first | rfl | simp [vanishing, Storage.WellFormed]
  scaling := by constructor <;> rfl
  iterates := by constructor <;> rfl
  dim := Cone.dim_eq_extent (c := vanishing.cones) (by decide)
  balanced := by
    intro b hb
    rw [List.mem_singleton.1 hb]
    trivial

theorem equilibrate_settles_iff_vanishing :
    Settles vanishing ((equilibrate none).run ⟨vanishing, #[]⟩) ↔
      ∀ s, vanishing.settings.chosen? none = .ok s →
        Passable { vanishing with settings := s } vanishing :=
  equilibrate_settles_iff (r := ⟨vanishing, #[]⟩) valid_vanishing rfl none

/-- Two passes multiply `1e-300` and `1e-150`, and the call fails with everything scaled. -/
theorem not_settles_vanishing :
    vanishing.Valid ∧ vanishing.phase = .raw ∧ vanishing.scaling = .identity 1 1 ∧
      isFinite vanishing.data ∧
        ¬ Settles vanishing ((equilibrate none).run ⟨vanishing, #[]⟩) := by
  refine ⟨valid_vanishing, rfl, rfl, by decide +kernel, ?_⟩
  intro settles
  have one : Scalar.same (1 : Float) 0 = false := by decide
  have chosen : vanishing.settings.chosen? none = .ok vanishing.settings := rfl
  have passable :=
    (settles_iff_passable (r := ⟨vanishing, #[]⟩) valid_vanishing rfl chosen).1 settles
  have fits : vanishing.cones.Fits vanishing.m :=
    Cone.fits_extent (c := vanishing.cones) (by decide)
  have zero : Scalar.same vanishing.final.progress.cost 0 = true := by decide +kernel
  rcases passable.1 fits with nonzero | stopped
  · exact Bool.false_ne_true (nonzero.symm.trans zero)
  · exact reached_ne one rfl zero stopped

end ConicScaling.Workspace
