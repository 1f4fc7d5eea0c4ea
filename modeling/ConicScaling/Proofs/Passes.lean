import ConicScaling.Proofs.Stage

/-!
# Running the passes

On data whose sizes agree no pass fails, and each one leads to the next stage. Only the data, the
scaling, the work vectors and the journal change.
-/
namespace ConicScaling

open Procedure Workspace

variable {α : Type} [Scalar α] {m n : Nat}

/-- The run with the data and scaling of a stage, and with given work vectors and journal. -/
def Run.withStage (r : Run α) (s : Stage α) (cols rows : Array α) (journal : Journal α) : Run α :=
  { workspace := { r.workspace with
      data := s.data
      scaling := { r.workspace.scaling with D := s.D, E := s.E, Dinv := cols, Einv := rows } }
    journal }

theorem run_workspace (r : Run α) : workspace.run r = .ok r.workspace r := rfl

theorem run_onScaling (f : Scaling α → Scaling α) (r : Run α) :
    (onScaling (modify f)).run r = .ok () { r with workspace.scaling := f r.workspace.scaling } :=
  rfl

theorem run_log (e : Event α) (r : Run α) :
    (log e).run r = .ok () { r with journal := r.journal.push e } := rfl

/-- Measuring puts the norms into the work vectors, whatever they held. -/
theorem run_measure {r : Run α} (h : r.workspace.data.Shaped m n)
    (columns : r.workspace.scaling.Dinv.size = n) (rows : r.workspace.scaling.Einv.size = m) :
    measure.run r = .ok () { r with
      workspace.scaling.Dinv := r.workspace.data.columnNorms
      workspace.scaling.Einv := r.workspace.data.rowNorms } := by
  refine bind_of_ok (run_workspace r) ?_
  refine bind_of_ok (ofExcept_of_ok (h.kktNorms? columns rows) r) ?_
  exact run_onScaling _ r

section Pass

variable {r : Run α} {s : Stage α} (shaped : s.Shaped m n) (cols rows : Array α)
  (journal : Journal α)

include shaped

theorem run_applyFactors (columns : cols.size = n) (row : rows.size = m) :
    applyFactors.run (r.withStage s cols rows journal) = .ok () (r.withStage
      { s with
        data := s.data.scaled (.entries cols) (.entries rows) 1
        D := Diagonal.times cols s.D
        E := Diagonal.times rows s.E } cols rows journal) := by
  have product := Data.scale_of_shaped shaped.data (Diagonal.spans_entries columns)
    (Diagonal.spans_entries row) 1
  have onD : (Diagonal.entries cols).scaleVector.run s.D = .ok () (Diagonal.times cols s.D) :=
    Diagonal.scaleVector_of_spans (Diagonal.spans_entries (columns.trans shaped.sizeD.symm))
  have onE : (Diagonal.entries rows).scaleVector.run s.E = .ok () (Diagonal.times rows s.E) :=
    Diagonal.scaleVector_of_spans (Diagonal.spans_entries (row.trans shaped.sizeE.symm))
  refine bind_of_ok (run_workspace _) ?_
  refine bind_of_ok (focus_of_ok product) ?_
  refine bind_of_ok (bind_of_ok (run_workspace _) (focus_of_ok (focus_of_ok onD))) ?_
  exact bind_of_ok (run_workspace _) (focus_of_ok (focus_of_ok onE))

theorem run_scaleCost (number : Nat) (columns : cols.size = n) :
    (scaleCost number s.progress).run (r.withStage s cols rows journal) =
      .ok (s.recosted r.workspace.settings.limiter).progress
        (r.withStage (s.recosted r.workspace.settings.limiter) s.data.objectiveNorms rows
          (journal.push (match s.data.costFactor? r.workspace.settings.limiter with
            | some factor => .costScaled number r.workspace.settings.passes factor
                (s.progress.cost * factor)
            | none => .costSkipped number r.workspace.settings.passes
                (mean s.data.objectiveNorms) (infNorm s.data.q)))) := by
  refine bind_of_ok (run_workspace _) ?_
  refine bind_of_ok (ofExcept_of_ok (shaped.data.objectiveNorms? columns) _) ?_
  refine bind_of_ok (run_onScaling _ _) ?_
  simp only [Run.withStage, Stage.recosted, Data.costFactor?]
  by_cases both : (!Scalar.same (mean s.data.objectiveNorms) 0 &&
      !Scalar.same (infNorm s.data.q) 0) = true
  · simp only [both, if_true]
    rfl
  · simp only [both]
    rfl

/-- One pass leads to the next stage. -/
theorem run_pass (number : Nat) (columns : cols.size = n) (row : rows.size = m) :
    (pass number s.progress).run (r.withStage s cols rows journal) =
      .ok (s.pass r.workspace.settings.limiter).progress
        (r.withStage (s.pass r.workspace.settings.limiter)
          (s.balanced r.workspace.settings.limiter).data.objectiveNorms
          (s.rowFactors r.workspace.settings.limiter) (journal.push
            (s.event r.workspace.settings.limiter number r.workspace.settings.passes))) := by
  have columnFactors := shaped.size_columnFactors r.workspace.settings.limiter
  have rowFactors := shaped.size_rowFactors r.workspace.settings.limiter
  have balanced := shaped.balanced r.workspace.settings.limiter
  refine bind_of_ok (run_measure shaped.data columns row) ?_
  refine bind_of_ok (bind_of_ok (run_workspace _) (run_onScaling _ _)) ?_
  refine bind_of_ok (run_applyFactors shaped _ _ _ columnFactors rowFactors) ?_
  exact run_scaleCost balanced _ _ _ number columnFactors

/-- All passes lead to the stage that they lead to one after the other, and each is recorded. -/
theorem run_passes (number k : Nat) (columns : cols.size = n) (row : rows.size = m) :
    (passes number s.progress k).run (r.withStage s cols rows journal) =
      .ok (s.passes r.workspace.settings.limiter k).progress
        (r.withStage (s.passes r.workspace.settings.limiter k)
          (s.works r.workspace.settings.limiter cols rows k).1
          (s.works r.workspace.settings.limiter cols rows k).2 (journal ++
            s.events r.workspace.settings.limiter number r.workspace.settings.passes k)) := by
  induction k generalizing s cols rows journal number with
  | zero => simp [passes, Stage.passes, Stage.events, Stage.works]
  | succ k ih =>
    have columns' := (shaped.balanced r.workspace.settings.limiter).data.size_objectiveNorms
    have row' := shaped.size_rowFactors r.workspace.settings.limiter
    refine bind_of_ok (run_pass shaped cols rows journal number columns row) ?_
    rw [ih (shaped.pass _) _ _ _ (number + 1) columns' row']
    simp [Stage.passes, Stage.events, Stage.works]

end Pass

end ConicScaling
