import ConicScaling.Proofs.Forward

/-!
# Outcomes of equilibration

Whatever is asked of a raw workspace, equilibration ends in one of four ways: the settings are
rejected and nothing happens, a box stops it, the cost factor has no inverse, or the workspace is
scaled.
-/
namespace ConicScaling

open Procedure

variable {α : Type} [Scalar α]

namespace Workspace

/-- What equilibration makes of a workspace, if it gets to its end. -/
def equilibrated (w : Workspace α) : Workspace α :=
  { w.scaledTo w.final with phase := .scaled }

/-- Equilibration after the settings have been chosen. -/
def equilibrateChosen : Procedure α (Report α) := do
  let report ← ruiz
  setPhase .scaled
  let verbose := (← workspace).settings.verbose.isTrue
  log (.equilibrated (if verbose then .info else .debug) report)
  return report

variable {r : Run α} {given : Option (Source α)}

theorem run_equilibrate_of_not_raw (h : r.workspace.phase ≠ .raw) :
    (equilibrate given).run r = .error (.notRaw r.workspace.phase) r := by
  refine bind_of_ok (run_workspace _) ?_
  simp only [h, ne_eq, not_false_eq_true, if_true]
  rfl

theorem run_equilibrate_of_rejected (raw : r.workspace.phase = .raw) {f : Fault α}
    (rejected : r.workspace.settings.chosen? given = .error f) :
    (equilibrate given).run r = .error f r := by
  have proceed : ¬ r.workspace.phase ≠ .raw := not_not_intro raw
  refine bind_of_ok (run_workspace _) ?_
  simp only [proceed, if_false]
  exact bind_of_error (ofExcept_of_error rejected r)

theorem run_equilibrate_of_chosen (raw : r.workspace.phase = .raw) {s : Settings α}
    (chosen : r.workspace.settings.chosen? given = .ok s) :
    (equilibrate given).run r = equilibrateChosen.run { r with workspace.settings := s } := by
  have proceed : ¬ r.workspace.phase ≠ .raw := not_not_intro raw
  refine bind_of_ok (run_workspace _) ?_
  simp only [proceed, if_false]
  exact bind_of_ok (ofExcept_of_ok chosen r) (bind_of_ok rfl rfl)

/-- What is recorded when equilibration gets to its end. -/
def summary (w : Workspace α) : Event α :=
  .equilibrated (if w.settings.verbose.isTrue then .info else .debug) w.report

/-- The ends that equilibration can come to after the settings have been chosen. -/
theorem run_equilibrateChosen (valid : r.workspace.Valid) :
    ∃ journal,
      (r.workspace.cones.Fits r.workspace.m →
        equilibrateChosen.run r =
          if Scalar.same r.workspace.final.progress.cost 0 then
            .error .divisionByZero ⟨r.workspace.reached r.workspace.final, journal⟩
          else .ok r.workspace.report
            ⟨r.workspace.equilibrated, journal.push r.workspace.summary⟩) ∧
      (¬ r.workspace.cones.Fits r.workspace.m →
        equilibrateChosen.run r = .error .lengthMismatch ⟨r.workspace.stuck, journal⟩) ∧
      RecordsSteps r journal := by
  obtain ⟨journal, fitting, misfitting, recorded⟩ := run_ruiz valid
  refine ⟨journal, fun fits => ?_, fun misfit => bind_of_error (misfitting misfit), recorded⟩
  have ran := fitting fits
  cases zero : Scalar.same r.workspace.final.progress.cost 0 with
  | true =>
    rw [zero, if_pos rfl] at ran
    rw [if_pos rfl]
    exact bind_of_error ran
  | false =>
    rw [zero, if_neg Bool.false_ne_true] at ran
    rw [if_neg Bool.false_ne_true]
    exact bind_of_ok ran rfl

/-- Where the rows of every box fit and the cost factor has an inverse, equilibration reaches its
end. -/
theorem run_equilibrateChosen_of_nonzero (valid : r.workspace.Valid)
    (fits : r.workspace.cones.Fits r.workspace.m)
    (nonzero : Scalar.same r.workspace.final.progress.cost 0 = false) :
    ∃ journal, equilibrateChosen.run r =
      .ok r.workspace.report ⟨r.workspace.equilibrated, journal⟩ := by
  obtain ⟨journal, fitting, -⟩ := run_equilibrateChosen valid
  have ran := fitting fits
  rw [nonzero, if_neg Bool.false_ne_true] at ran
  exact ⟨_, ran⟩

theorem run_equilibrate_of_nonzero (valid : r.workspace.Valid) (raw : r.workspace.phase = .raw)
    (fits : r.workspace.cones.Fits r.workspace.m) {s : Settings α}
    (chosen : r.workspace.settings.chosen? given = .ok s)
    (nonzero : Scalar.same { r.workspace with settings := s }.final.progress.cost 0 = false) :
    ∃ report journal, (equilibrate given).run r =
      .ok report ⟨{ r.workspace with settings := s }.equilibrated, journal⟩ := by
  obtain ⟨journal, ran⟩ := run_equilibrateChosen_of_nonzero
    (r := { r with workspace.settings := s }) (valid.with_settings s) fits nonzero
  exact ⟨_, journal, (run_equilibrate_of_chosen raw chosen).trans ran⟩

end Workspace

end ConicScaling
