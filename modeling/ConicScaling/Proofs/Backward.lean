import ConicScaling.Proofs.Outcome
import ConicScaling.Reverse

/-!
# Running the way back

Mapping back applies the stored inverses, whatever was done to data and iterates since they were
formed, and cannot fail while lengths agree.
-/
namespace ConicScaling.Workspace

open Procedure

variable {α : Type} [Scalar α] {m n : Nat}

/-- The iterates that a scaling came to given ones from. -/
def returnedIterates (t : Scaling α) (i : Iterates α) : Iterates α where
  x := Diagonal.times t.D i.x
  s := Diagonal.times t.Einv i.s
  mu := (Diagonal.times t.E i.mu).map (· * t.cinv)

/-- The workspace mapped back, its data and boxes only if the settings ask for it. -/
def returned (w : Workspace α) : Workspace α :=
  { w with
    iterates := returnedIterates w.scaling w.iterates
    data := if w.settings.reverseData.isTrue then
        w.data.scaled (.entries w.scaling.Dinv) (.entries w.scaling.Einv) w.scaling.cinv
      else w.data
    cones := if w.settings.reverseData.isTrue then w.cones.scaled w.scaling.Einv else w.cones
    phase := .unscaled }

variable {r : Run α}

theorem run_reverseIterates (scaling : r.workspace.scaling.Sized m n)
    (iterates : r.workspace.iterates.Sized m n) :
    reverseIterates.run r = .ok () { r with
      workspace.iterates := returnedIterates r.workspace.scaling r.workspace.iterates } := by
  have onX := Diagonal.scaleVector_of_spans
    (Diagonal.spans_entries (scaling.D.trans iterates.x.symm))
  have onS := Diagonal.scaleVector_of_spans
    (Diagonal.spans_entries (scaling.Einv.trans iterates.s.symm))
  have onMu := Diagonal.scaleVector_of_spans
    (Diagonal.spans_entries (scaling.E.trans iterates.mu.symm))
  refine bind_of_ok (run_workspace _) ?_
  refine bind_of_ok (focus_of_ok (focus_of_ok onX)) ?_
  refine bind_of_ok (focus_of_ok (focus_of_ok onS)) ?_
  refine bind_of_ok (focus_of_ok (focus_of_ok onMu)) ?_
  rfl

theorem run_reverseData (data : r.workspace.data.Shaped m n)
    (scaling : r.workspace.scaling.Sized m n) (fits : r.workspace.cones.Fits m) :
    reverseData.run r = .ok () { r with
      workspace.data := r.workspace.data.scaled (.entries r.workspace.scaling.Dinv)
        (.entries r.workspace.scaling.Einv) r.workspace.scaling.cinv
      workspace.cones := r.workspace.cones.scaled r.workspace.scaling.Einv } := by
  have products := Data.scale_of_shaped data (Diagonal.spans_entries scaling.Dinv)
    (Diagonal.spans_entries scaling.Einv) r.workspace.scaling.cinv
  refine bind_of_ok (run_workspace _) ?_
  refine bind_of_ok (focus_of_ok products) ?_
  exact focus_of_ok (Cone.run_scale (scaling.Einv ▸ fits))

theorem run_unscale (data : r.workspace.data.Shaped m n) (scaling : r.workspace.scaling.Sized m n)
    (iterates : r.workspace.iterates.Sized m n) (fits : r.workspace.cones.Fits m) :
    unscale.run r =
      .ok () { r with workspace := { r.workspace.returned with phase := r.workspace.phase } } := by
  refine bind_of_ok (run_reverseIterates scaling iterates) (bind_of_ok (run_workspace _) ?_)
  by_cases flag : r.workspace.settings.reverseData.isTrue = true
  · simp only [flag, if_true, returned]
    exact run_reverseData data scaling fits
  · simp only [flag, returned]
    rfl

theorem run_reverse_of_not_scaled (h : r.workspace.phase ≠ .scaled) :
    reverse.run r = .error (.notScaled r.workspace.phase) r := by
  refine bind_of_ok (run_workspace _) ?_
  simp only [h, ne_eq, not_false_eq_true, if_true]
  rfl

/-- A scaled workspace can always be mapped back. -/
theorem run_reverse (scaled : r.workspace.phase = .scaled) (data : r.workspace.data.Shaped m n)
    (scaling : r.workspace.scaling.Sized m n) (iterates : r.workspace.iterates.Sized m n)
    (fits : r.workspace.cones.Fits m) :
    reverse.run r = .ok () ⟨r.workspace.returned, r.journal.push .reversed⟩ := by
  have proceed : ¬ r.workspace.phase ≠ .scaled := not_not_intro scaled
  refine bind_of_ok (run_workspace _) ?_
  simp only [proceed, if_false]
  exact bind_of_ok (run_unscale data scaling iterates fits) (bind_of_ok rfl (run_log _ _))

theorem Valid.fits_equilibrated {w : Workspace α} (valid : w.Valid) (fits : w.cones.Fits w.m) :
    w.equilibrated.cones.Fits w.m := by
  have size := valid.shaped_final.sizeE
  have kept := Cone.fits_scaled (show w.cones.Fits w.final.E.size from size ▸ fits)
  rwa [size] at kept

/-- After equilibration a solver may leave any iterates of the right sizes. -/
theorem run_reverse_of_equilibrated {w : Workspace α} (valid : w.Valid) (fits : w.cones.Fits w.m)
    {i : Iterates α} (iterates : i.Sized w.m w.n) (journal : Journal α) :
    reverse.run ⟨{ w.equilibrated with iterates := i }, journal⟩ =
      .ok () ⟨returned { w.equilibrated with iterates := i }, journal.push .reversed⟩ := by
  have final := valid.shaped_final
  have sized := valid.sized_scaledTo
  exact run_reverse rfl final.data ⟨sized.D, sized.E, sized.Dinv, sized.Einv⟩ iterates
    (valid.fits_equilibrated fits)

end ConicScaling.Workspace
