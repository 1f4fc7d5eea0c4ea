import ConicScaling.Proofs.Backward
import ConicScaling.Proofs.SetUp
import ConicScaling.Proofs.UnitalDoubles

/-!
# Equilibration without a pass

Without a pass nothing is measured into the scaling, so all factors are ones. What still runs, the
rectification, the scaling of the boxes, the inverses and the maps of the iterates, then changes no
number, and neither does the way back.
-/
namespace ConicScaling

variable {α : Type} [Scalar α]

namespace Workspace

/-- The workspace with other settings, marked as scaled, by factors that are all one. -/
def scaledByOnes (w : Workspace α) (s : Settings α) : Workspace α :=
  { w with settings := s, scaling := .identity w.n w.m, phase := .scaled }

/-- What is reported if nothing has been done. -/
def idleReport (w : Workspace α) : Report α where
  passes := 0
  costScale := 1
  costScaledPasses := 0
  rectified := false
  colSpreadBefore := spread w.data.columnNorms
  colSpreadAfter := spread w.data.columnNorms
  rowSpreadBefore := spread w.data.rowNorms
  rowSpreadAfter := spread w.data.rowNorms

open Scalar

variable {w : Workspace α}

theorem lastPass_of_no_passes (none : w.settings.passes = 0) : w.lastPass = .start w.data := by
  rw [lastPass, none]
  rfl

variable [Unital α]

theorem final_of_no_passes (none : w.settings.passes = 0) : w.final = .start w.data := by
  rw [final, none, Stage.finished_zero]

theorem report_of_no_passes (none : w.settings.passes = 0) : w.report = w.idleReport := by
  simp only [report, idleReport, lastPass_of_no_passes none, final_of_no_passes none, none,
    Stage.correction?_start]
  rfl

theorem scaledIterates_identity {i : Iterates α} {m n : Nat} (sized : i.Sized m n) :
    scaledIterates (.identity n m) i = i := by
  have x : Diagonal.times (ones n) i.x = i.x := times_replicate_one sized.x
  have s : Diagonal.times (ones m) i.s = i.s := times_replicate_one sized.s
  have mu : Diagonal.times (ones m) i.mu = i.mu := times_replicate_one sized.mu
  simp only [scaledIterates, Scaling.identity, x, s, mu, map_mul_one]

theorem returnedIterates_identity {i : Iterates α} {m n : Nat} (sized : i.Sized m n) :
    returnedIterates (.identity n m) i = i :=
  scaledIterates_identity sized

theorem Valid.scaled_ones (valid : w.Valid) (fits : w.cones.Fits w.m) :
    w.cones.scaled (ones w.m) = w.cones :=
  Cone.scaled_of_ones valid.balanced (fun _ member => (Array.mem_replicate.1 member).2)
    (by rwa [ones, Array.size_replicate])

theorem scaling_of_no_passes (none : w.settings.passes = 0) :
    (w.scaledTo w.final).scaling = .identity w.n w.m := by
  rw [final_of_no_passes none]
  simp only [scaledTo, reached, Stage.start, map_reciprocal_ones, Unital.one_div_one]
  rfl

theorem equilibrated_of_no_passes (valid : w.Valid) (fits : w.cones.Fits w.m)
    (none : w.settings.passes = 0) : w.equilibrated = w.scaledByOnes w.settings := by
  have scaling := scaling_of_no_passes none
  have iterates : (w.scaledTo w.final).iterates = w.iterates := by
    calc (w.scaledTo w.final).iterates
        = scaledIterates (w.scaledTo w.final).scaling w.iterates := rfl
      _ = w.iterates := by rw [scaling, scaledIterates_identity valid.iterates]
  have cones : (w.scaledTo w.final).cones = w.cones := by
    rw [final_of_no_passes none]
    exact valid.scaled_ones fits
  have data : (w.scaledTo w.final).data = w.data := by
    rw [final_of_no_passes none]
    rfl
  calc w.equilibrated
      = ⟨(w.scaledTo w.final).data, (w.scaledTo w.final).cones, w.settings,
          (w.scaledTo w.final).scaling, (w.scaledTo w.final).iterates, .scaled⟩ := rfl
    _ = w.scaledByOnes w.settings := by
      rw [data, cones, scaling, iterates]
      rfl

/-- The way back multiplies by ones as well. -/
theorem returned_scaledByOnes (valid : w.Valid) (fits : w.cones.Fits w.m)
    (representable : w.data.Representable) (s : Settings α) {i : Iterates α}
    (sized : i.Sized w.m w.n) :
    returned { w.scaledByOnes s with iterates := i } =
      { w.scaledByOnes s with iterates := i, phase := .unscaled } := by
  have data := representable.scaled_ones valid.data
  have cones := valid.scaled_ones fits
  have iterates := returnedIterates_identity sized
  simp only [returned, scaledByOnes, Scaling.identity, data, cones, ite_self]
  rw [← Scaling.identity, iterates]

/-- What equilibration without a pass leaves of a workspace and what it reports, and that the way
back, from whatever iterates a solver may have stored, leaves the same. -/
structure Idles (w : Workspace α) (s : Settings α)
    (result : EStateM.Result (Fault α) (Run α) (Report α)) : Prop where
  forward : ∃ journal, result = .ok w.idleReport ⟨w.scaledByOnes s, journal⟩
  back : ∀ i : Iterates α, i.Sized w.m w.n → ∀ journal,
    reverse.run ⟨{ w.scaledByOnes s with iterates := i }, journal⟩ =
      .ok () ⟨{ w.scaledByOnes s with iterates := i, phase := .unscaled },
        journal.push .reversed⟩

/-- Without a pass equilibration does nothing, whatever numbers it meets: data, boxes and iterates
stay, all factors are ones, and the way back does nothing either. -/
theorem equilibrate_idles {r : Run α} (valid : r.workspace.Valid)
    (representable : r.workspace.data.Representable) (raw : r.workspace.phase = .raw)
    (small : r.workspace.cones.extent < countLimit) {given : Option (Source α)} {s : Settings α}
    (chosen : r.workspace.settings.chosen? given = .ok s) (none : s.passes = 0) :
    Idles r.workspace s ((equilibrate given).run r) where
  forward := by
    let w : Workspace α := { r.workspace with settings := s }
    have valid' : w.Valid := valid.with_settings s
    have fits : w.cones.Fits w.m := valid.fits small
    have nonzero : same w.final.progress.cost 0 = false := by
      rw [final_of_no_passes none]
      exact Unital.same_one_zero
    obtain ⟨journal, ran⟩ := run_equilibrateChosen_of_nonzero
      (r := { r with workspace := w }) valid' fits nonzero
    refine ⟨journal, ?_⟩
    rw [run_equilibrate_of_chosen raw chosen, ran, report_of_no_passes none,
      equilibrated_of_no_passes valid' fits none]
    rfl
  back i sized journal := by
    have fits := valid.fits small
    have ran := run_reverse (r := ⟨{ r.workspace.scaledByOnes s with iterates := i }, journal⟩)
      rfl valid.data (.identity _ _) sized fits
    rwa [returned_scaledByOnes valid fits representable s sized] at ran

/-- A matrix that is not symmetric, infinities and not-a-number, a box and rows that have to be
scaled alike. -/
def disorderly : Workspace Float where
  data :=
    { P := ⟨.double, .sparse .column 2 #[[(0, nan), (1, 1.5)], [(1, infinity)]]⟩
      A := ⟨.double, .dense 2 #[#[1.0, 0.0], #[nan, -0.0], #[2.0, 3.0]]⟩
      q := #[nan, 0.1]
      b := #[1.0, infinity, -0.0] }
  cones := .product [.block (.box #[-infinity] #[2.0]), .product [.block (.secondOrder 2)]]
  settings := { Settings.standard with passes := 0, verbose := .bool true }
  scaling := .identity 2 3
  iterates := ⟨#[0.1, nan], #[1.0, 2.0, infinity], #[-0.0, 0.0, 0.3]⟩
  phase := .raw

theorem valid_disorderly : disorderly.Valid where
  data := by
    constructor <;> simp [disorderly, Storage.WellFormed, Storage.count, m, n, Axis.select]
    rintro k v (⟨rfl, -⟩ | ⟨rfl, -⟩) <;> decide
  scaling := by constructor <;> rfl
  iterates := by constructor <;> rfl
  dim := Cone.dim_eq_extent (c := disorderly.cones) (by decide)
  balanced := by
    simp [Cone.Balanced, disorderly, Cone.leaves, Cone.leavesOf, Block.Balanced]

theorem equilibrate_idles_disorderly :
    Idles disorderly disorderly.settings ((equilibrate none).run ⟨disorderly, #[]⟩) := by
  have representable : disorderly.data.Representable :=
    ⟨DataMatrix.representable_of_double rfl, DataMatrix.representable_of_double rfl⟩
  exact equilibrate_idles (r := ⟨disorderly, #[]⟩) valid_disorderly representable rfl (by decide)
    rfl rfl

end Workspace

end ConicScaling
