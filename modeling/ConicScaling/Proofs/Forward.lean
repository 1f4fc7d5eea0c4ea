import ConicScaling.Proofs.Passes
import ConicScaling.Proofs.Rescaling

/-!
# Running equilibration

On a workspace that was validated no step fails but the last division, by a cost factor that may
have become zero. What is left behind is a function of the stage that the data lead to, and the
iterates follow its scaling.
-/
namespace ConicScaling

open Procedure

variable {α : Type} [Scalar α] {m n : Nat}

structure Scaling.Sized (s : Scaling α) (m n : Nat) : Prop where
  D : s.D.size = n
  E : s.E.size = m
  Dinv : s.Dinv.size = n
  Einv : s.Einv.size = m

structure Iterates.Sized (i : Iterates α) (m n : Nat) : Prop where
  x : i.x.size = n
  s : i.s.size = m
  mu : i.mu.size = m

namespace Workspace

/-- What setting up a workspace checks of its data, sets and vectors. -/
structure Valid (w : Workspace α) : Prop where
  data : w.data.Shaped w.m w.n
  scaling : w.scaling.Sized w.m w.n
  iterates : w.iterates.Sized w.m w.n
  dim : w.cones.dim = w.m
  balanced : w.cones.Balanced

theorem Valid.with_settings {w : Workspace α} (valid : w.Valid) (s : Settings α) :
    Valid { w with settings := s } :=
  { valid with }

/-- While row counts do not wrap, the elementary sets have as many rows as the problem. -/
theorem Valid.extent {w : Workspace α} (valid : w.Valid) (small : w.cones.extent < countLimit) :
    w.cones.extent = w.m :=
  (Cone.dim_eq_extent small).symm.trans valid.dim

theorem Valid.fits {w : Workspace α} (valid : w.Valid) (small : w.cones.extent < countLimit) :
    w.cones.Fits w.m :=
  valid.extent small ▸ Cone.fits_extent small

theorem run_onDraft {β : Type} {act : Rectification α β} {r : Run α} {b : β} {d : Draft α}
    (h : act.run ⟨r.workspace.scaling.Einv, r.journal⟩ = .ok b d) :
    (onDraft act).run r =
      .ok b { r with workspace.scaling.Einv := d.work, journal := d.journal } :=
  focus_of_ok (s := r) h

/-- The stage after the last pass. -/
def lastPass (w : Workspace α) : Stage α :=
  (Stage.start w.data).passes w.settings.limiter w.settings.passes

/-- The stage that equilibration leads to. -/
def final (w : Workspace α) : Stage α :=
  (Stage.start w.data).finished w.settings.limiter w.cones w.settings.passes

/-- What the work vectors hold after the last pass. -/
def lastWorks (w : Workspace α) : Array α × Array α :=
  (Stage.start w.data).works w.settings.limiter w.data.columnNorms w.data.rowNorms
    w.settings.passes

/-- What the work vector for rows holds after the rectification. -/
def workRows (w : Workspace α) : Array α :=
  if w.cones.uniformScaling then (w.cones.corrections w.lastPass.E).2 else w.lastWorks.2

/-- What the passes record. -/
def passEvents (w : Workspace α) : List (Event α) :=
  (Stage.start w.data).events w.settings.limiter 1 w.settings.passes w.settings.passes

def report (w : Workspace α) : Report α where
  passes := w.settings.passes
  costScale := w.lastPass.progress.cost
  costScaledPasses := w.lastPass.progress.costPasses
  rectified := (w.lastPass.correction? w.cones).isSome
  colSpreadBefore := spread w.data.columnNorms
  colSpreadAfter := spread w.final.data.columnNorms
  rowSpreadBefore := spread w.data.rowNorms
  rowSpreadAfter := spread w.final.data.rowNorms

/-- Where equilibration stops if the rows of some box do not fit. -/
def stuck (w : Workspace α) : Workspace α :=
  { w with
    data := w.final.data
    cones := (w.cones.rescale w.final.E).1
    scaling := ⟨w.final.D, w.final.E, w.lastWorks.1, w.workRows, 1, 1⟩ }

/-- Scaled as a stage tells, with iterates in old units and no inverse for the cost factor. -/
def reached (w : Workspace α) (s : Stage α) : Workspace α :=
  { w with
    data := s.data
    cones := w.cones.scaled s.E
    scaling := ⟨s.D, s.E, s.D.map Scalar.reciprocal, s.E.map Scalar.reciprocal,
      s.progress.cost, 1⟩ }

/-- The iterates that a scaling takes given ones to. -/
def scaledIterates (t : Scaling α) (i : Iterates α) : Iterates α where
  x := Diagonal.times t.Dinv i.x
  s := Diagonal.times t.E i.s
  mu := (Diagonal.times t.Einv i.mu).map (· * t.c)

theorem sized_scaledIterates {t : Scaling α} {i : Iterates α} (scaling : t.Sized m n)
    (iterates : i.Sized m n) : (scaledIterates t i).Sized m n where
  x := (Diagonal.size_times (scaling.Dinv.trans iterates.x.symm)).trans iterates.x
  s := (Diagonal.size_times (scaling.E.trans iterates.s.symm)).trans iterates.s
  mu := (Array.size_map ..).trans
    ((Diagonal.size_times (scaling.Einv.trans iterates.mu.symm)).trans iterates.mu)

/-- Scaled as a stage tells. -/
def scaledTo (w : Workspace α) (s : Stage α) : Workspace α :=
  let t : Scaling α := { (w.reached s).scaling with cinv := 1 / s.progress.cost }
  { w.reached s with scaling := t, iterates := scaledIterates t w.iterates }

/-! ## Steps after the passes -/

section Finish

variable {r : Run α} {s : Stage α} (shaped : s.Shaped m n) (cols rows : Array α)
  (journal : Journal α)

include shaped

theorem run_rectifySets (row : rows.size = m) :
    ∃ between, BlocksRecorded journal between ∧
      (onDraft (r.workspace.cones.rectifySets s.E)).run (r.withStage s cols rows journal) =
        .ok (r.workspace.cones.corrections s.E).1
          (r.withStage s cols (r.workspace.cones.corrections s.E).2 between) := by
  obtain ⟨between, blocks, drafted⟩ :=
    Cone.run_rectifySets (c := r.workspace.cones) (shaped.sizeE.trans row.symm) journal
  exact ⟨between, blocks, run_onDraft (r := r.withStage s cols rows journal) drafted⟩

/-- Rectification leads to the rectified stage, and records it if that is another one. -/
theorem run_rectify (row : rows.size = m) :
    ∃ between, BlocksRecorded journal between ∧
      rectify.run (r.withStage s cols rows journal) =
        .ok (s.correction? r.workspace.cones).isSome
          (r.withStage (s.rectified r.workspace.cones) cols
            (if r.workspace.cones.uniformScaling then (r.workspace.cones.corrections s.E).2
              else rows)
            (if (s.correction? r.workspace.cones).isSome then between.push .rectified
              else between)) := by
  unfold Stage.rectified
  cases uniform : r.workspace.cones.uniformScaling with
  | false =>
    have none : s.correction? r.workspace.cones = none := by simp [Stage.correction?, uniform]
    rw [none]
    refine ⟨journal, .refl journal, bind_of_ok (run_workspace _) ?_⟩
    simp only [Run.withStage, uniform]
    rfl
  | true =>
    obtain ⟨between, blocks, drafted⟩ := run_rectifySets (r := r) shaped cols rows journal row
    refine ⟨between, blocks, bind_of_ok (run_workspace _) ?_⟩
    simp only [Run.withStage, uniform]
    refine bind_of_ok drafted ?_
    cases changed : (r.workspace.cones.corrections s.E).1 with
    | false =>
      have none : s.correction? r.workspace.cones = none := by
        simp [Stage.correction?, uniform, changed]
      rw [none]
      rfl
    | true =>
      have some : s.correction? r.workspace.cones =
          some (r.workspace.cones.corrections s.E).2 := by
        simp [Stage.correction?, uniform, changed]
      rw [some]
      have size := shaped.size_corrections r.workspace.cones
      have spans := Diagonal.spans_entries size
      have product := Data.scale_of_shaped shaped.data (D := .identity) trivial spans 1
      have spansE := Diagonal.spans_entries (size.trans shaped.sizeE.symm)
      have onE := Diagonal.scaleVector_of_spans spansE
      refine bind_of_ok (run_workspace _) (bind_of_ok (focus_of_ok product) ?_)
      refine bind_of_ok (bind_of_ok (run_workspace _) (focus_of_ok (focus_of_ok onE))) ?_
      exact bind_of_ok (run_log _ _) rfl

theorem run_symmetrize :
    symmetrize.run (r.withStage s cols rows journal) =
      .ok () (r.withStage s.symmetrized cols rows journal) := by
  have square : s.data.P.storage.shape.1 = s.data.P.storage.shape.2 :=
    shaped.data.rowsP.trans shaped.data.columnsP.symm
  refine bind_of_ok (run_workspace _) ?_
  by_cases symmetric : s.data.P.isSymmetric = true
  · simp only [Run.withStage, Stage.symmetrized, symmetric, if_true]
    rfl
  · simp only [Run.withStage, Stage.symmetrized, symmetric]
    exact focus_of_ok (focus_of_ok (modify?_of_ok (if_pos square)))

end Finish

theorem run_scaleCones {r : Run α} (fits : r.workspace.cones.Fits r.workspace.scaling.E.size) :
    scaleCones.run r =
      .ok () { r with workspace.cones := r.workspace.cones.scaled r.workspace.scaling.E } :=
  bind_of_ok (run_workspace _) (focus_of_ok (Cone.run_scale fits))

theorem run_scaleCones_of_not_fits {r : Run α}
    (misfit : ¬ r.workspace.cones.Fits r.workspace.scaling.E.size) :
    scaleCones.run r = .error .lengthMismatch { r with
      workspace.cones := (r.workspace.cones.rescale r.workspace.scaling.E).1 } :=
  bind_of_ok (run_workspace _) (focus_of_error (Cone.run_scale_of_not_fits misfit))

/-- The factors and their inverses are stored before the cost factor is inverted. -/
def inverted (w : Workspace α) (cost : α) : Workspace α :=
  { w with scaling := { w.scaling with
      Dinv := w.scaling.D.map Scalar.reciprocal
      Einv := w.scaling.E.map Scalar.reciprocal
      c := cost } }

theorem run_invert_of_zero {cost : α} (zero : Scalar.same cost 0 = true) (r : Run α) :
    (invert cost).run r =
      .error .divisionByZero { r with workspace := r.workspace.inverted cost } := by
  refine bind_of_ok (run_onScaling _ _) ?_
  rw [if_pos zero]
  rfl

theorem run_invert_of_nonzero {cost : α} (nonzero : Scalar.same cost 0 = false) (r : Run α) :
    (invert cost).run r = .ok () { r with
      workspace := { r.workspace.inverted cost with
        scaling := { (r.workspace.inverted cost).scaling with cinv := 1 / cost } } } := by
  refine bind_of_ok (run_onScaling _ _) ?_
  rw [nonzero]
  rfl

theorem run_scaleIterates {r : Run α} (scaling : r.workspace.scaling.Sized m n)
    (iterates : r.workspace.iterates.Sized m n) :
    scaleIterates.run r = .ok () { r with
      workspace.iterates := scaledIterates r.workspace.scaling r.workspace.iterates } := by
  have onX := Diagonal.scaleVector_of_spans
    (Diagonal.spans_entries (scaling.Dinv.trans iterates.x.symm))
  have onMu := Diagonal.scaleVector_of_spans
    (Diagonal.spans_entries (scaling.Einv.trans iterates.mu.symm))
  have onS := Diagonal.scaleVector_of_spans
    (Diagonal.spans_entries (scaling.E.trans iterates.s.symm))
  refine bind_of_ok (run_workspace _) ?_
  refine bind_of_ok (focus_of_ok (focus_of_ok onX)) ?_
  refine bind_of_ok (focus_of_ok (focus_of_ok onMu)) ?_
  refine bind_of_ok (focus_of_ok (focus_of_ok onS)) ?_
  rfl

/-! ## The whole procedure -/

/-- The run with every scaling factor undone. -/
def unscaledRun (r : Run α) : Run α :=
  { r with workspace.scaling := r.workspace.scaling.reset }

theorem run_resetScaling {r : Run α} (valid : r.workspace.Valid) :
    resetScaling.run r = .ok () ((unscaledRun r).withStage (Stage.start r.workspace.data)
      (ones r.workspace.n) (ones r.workspace.m) r.journal) := by
  refine (run_onScaling _ r).trans ?_
  simp only [unscaledRun, Run.withStage, Scaling.reset, Stage.start, valid.scaling.D,
    valid.scaling.E, valid.scaling.Dinv, valid.scaling.Einv]
  rfl

theorem Valid.shaped_start {w : Workspace α} (valid : w.Valid) :
    (Stage.start w.data).Shaped w.m w.n :=
  Stage.shaped_start valid.data

theorem Valid.shaped_final {w : Workspace α} (valid : w.Valid) : w.final.Shaped w.m w.n :=
  valid.shaped_start.finished _ _ _

/-- After the passes and the rectification, `P` is made symmetric if anything was scaled. -/
theorem run_finish {r : Run α} {s : Stage α} (shaped : s.Shaped m n) (cols rows : Array α)
    (journal : Journal α) (changed : Bool) :
    (if 0 < r.workspace.settings.passes || changed then symmetrize else pure ()).run
        (r.withStage s cols rows journal) =
      .ok () (r.withStage (if 0 < r.workspace.settings.passes || changed then s.symmetrized
        else s) cols rows journal) := by
  split
  · exact run_symmetrize shaped cols rows journal
  · rfl

theorem Valid.size_lastWorks {w : Workspace α} (valid : w.Valid) :
    w.lastWorks.1.size = w.n ∧ w.lastWorks.2.size = w.m :=
  valid.shaped_start.size_works _ valid.data.size_columnNorms valid.data.size_rowNorms _

theorem Valid.size_workRows {w : Workspace α} (valid : w.Valid) : w.workRows.size = w.m := by
  unfold workRows
  split
  · exact (valid.shaped_start.passes _ _).size_corrections _
  · exact valid.size_lastWorks.2

theorem Valid.sized_scaledTo {w : Workspace α} (valid : w.Valid) :
    (w.scaledTo w.final).scaling.Sized w.m w.n where
  D := valid.shaped_final.sizeD
  E := valid.shaped_final.sizeE
  Dinv := (Array.size_map ..).trans valid.shaped_final.sizeD
  Einv := (Array.size_map ..).trans valid.shaped_final.sizeE

theorem progress_final (w : Workspace α) : w.final.progress = w.lastPass.progress :=
  Stage.progress_finished ..

/-- What is left to do once the data have been scaled for the last time. -/
def conclude (before : Scaling α) (passCount : Nat) (progress : Progress α) (rectified : Bool) :
    Procedure α (Report α) := do
  scaleCones
  measure
  let after := (← workspace).scaling
  invert progress.cost
  scaleIterates
  return {
    passes := passCount
    costScale := progress.cost
    costScaledPasses := progress.costPasses
    rectified
    colSpreadBefore := spread before.Dinv
    colSpreadAfter := spread after.Dinv
    rowSpreadBefore := spread before.Einv
    rowSpreadAfter := spread after.Einv }

/-- The scaling while the norms of the data as they were given are measured. -/
def measured (w : Workspace α) : Scaling α :=
  ⟨ones w.n, ones w.m, w.data.columnNorms, w.data.rowNorms, 1, 1⟩

/-- The run after the data have been scaled for the last time. -/
def lastRun (r : Run α) (journal : Journal α) : Run α :=
  (unscaledRun r).withStage r.workspace.final r.workspace.lastWorks.1 r.workspace.workRows journal

/-- Whether a journal has, after what it had before, the passes, the blocks that were rectified, and
that some were if there are any. -/
def RecordsSteps (r : Run α) (journal : Journal α) : Prop :=
  ∃ between, BlocksRecorded (r.journal ++ r.workspace.passEvents) between ∧
    journal = if r.workspace.report.rectified then between.push .rectified else between

section Conclude

variable {r : Run α} (valid : r.workspace.Valid) (journal : Journal α)

include valid

theorem run_conclude_of_fits (fits : r.workspace.cones.Fits r.workspace.m) :
    (conclude r.workspace.measured r.workspace.settings.passes r.workspace.lastPass.progress
        r.workspace.report.rectified).run (lastRun r journal) =
      if Scalar.same r.workspace.final.progress.cost 0 then
        .error .divisionByZero ⟨r.workspace.reached r.workspace.final, journal⟩
      else .ok r.workspace.report ⟨r.workspace.scaledTo r.workspace.final, journal⟩ := by
  have final := valid.shaped_final
  have columns := valid.size_lastWorks.1
  refine bind_of_ok (run_scaleCones (final.sizeE ▸ fits)) ?_
  refine bind_of_ok (run_measure final.data columns valid.size_workRows) ?_
  refine bind_of_ok (run_workspace _) ?_
  have same : invert r.workspace.lastPass.progress.cost =
      invert r.workspace.final.progress.cost := by rw [progress_final]
  rw [same]
  cases zero : Scalar.same r.workspace.final.progress.cost 0 with
  | true =>
    rw [if_pos rfl]
    exact bind_of_error (run_invert_of_zero zero _)
  | false =>
    rw [if_neg Bool.false_ne_true]
    refine bind_of_ok (run_invert_of_nonzero zero _) ?_
    exact bind_of_ok (run_scaleIterates valid.sized_scaledTo valid.iterates) rfl

theorem run_conclude_of_not_fits (misfit : ¬ r.workspace.cones.Fits r.workspace.m) :
    (conclude r.workspace.measured r.workspace.settings.passes r.workspace.lastPass.progress
        r.workspace.report.rectified).run (lastRun r journal) =
      .error .lengthMismatch ⟨r.workspace.stuck, journal⟩ :=
  bind_of_error (run_scaleCones_of_not_fits fun fits => misfit (valid.shaped_final.sizeE ▸ fits))

/-- Nothing before the boxes are scaled can fail. -/
theorem run_ruiz_of_conclude :
    ∃ journal,
      ruiz.run r = (conclude r.workspace.measured r.workspace.settings.passes
        r.workspace.lastPass.progress r.workspace.report.rectified).run (lastRun r journal) ∧
      RecordsSteps r journal := by
  have start := valid.shaped_start
  have passed := start.passes r.workspace.settings.limiter r.workspace.settings.passes
  have rectified := passed.rectified r.workspace.cones
  have row := valid.size_lastWorks.2
  have passing := run_passes (r := unscaledRun r) start r.workspace.data.columnNorms
    r.workspace.data.rowNorms r.journal 1 r.workspace.settings.passes start.data.size_columnNorms
    start.data.size_rowNorms
  obtain ⟨between, blocks, rectifying⟩ := run_rectify (r := unscaledRun r) passed
    r.workspace.lastWorks.1 r.workspace.lastWorks.2 (r.journal ++ r.workspace.passEvents) row
  have finishing := run_finish (r := unscaledRun r) rectified r.workspace.lastWorks.1
    r.workspace.workRows
    (if r.workspace.report.rectified then between.push .rectified else between)
    (r.workspace.lastPass.correction? r.workspace.cones).isSome
  refine ⟨_, ?_, between, blocks, rfl⟩
  refine bind_of_ok (run_resetScaling valid) ?_
  refine bind_of_ok (run_measure start.data (by simp [Run.withStage, ones])
    (by simp [Run.withStage, ones])) ?_
  refine bind_of_ok (run_workspace _) (bind_of_ok (run_workspace _) ?_)
  exact bind_of_ok passing (bind_of_ok rectifying (bind_of_ok_ite finishing rfl))

/-- Whether equilibration gets to its end depends on the boxes and on the cost factor. -/
theorem run_ruiz :
    ∃ journal,
      (r.workspace.cones.Fits r.workspace.m →
        ruiz.run r =
          if Scalar.same r.workspace.final.progress.cost 0 then
            .error .divisionByZero ⟨r.workspace.reached r.workspace.final, journal⟩
          else .ok r.workspace.report ⟨r.workspace.scaledTo r.workspace.final, journal⟩) ∧
      (¬ r.workspace.cones.Fits r.workspace.m →
        ruiz.run r = .error .lengthMismatch ⟨r.workspace.stuck, journal⟩) ∧
      RecordsSteps r journal := by
  obtain ⟨journal, reaches, recorded⟩ := run_ruiz_of_conclude valid
  refine ⟨journal, fun fits => ?_, fun misfit => ?_, recorded⟩
  · exact reaches.trans (run_conclude_of_fits valid journal fits)
  · exact reaches.trans (run_conclude_of_not_fits valid journal misfit)

end Conclude

end Workspace

end ConicScaling
