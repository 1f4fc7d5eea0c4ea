import ConicScaling.Proofs.Outcome

/-!
# What the scaling depends on

The factors, the scaled `P`, `A` and `q` and the report depend on `P`, `A`, `q`, the shape of the
sets, the number of passes and the bounds for factors, and on nothing else: every step of
equilibration commutes with forgetting `b`, the bounds of boxes, the iterates and the flags. No law
of arithmetic is used, so this holds for not-a-number and infinities as well.
-/
namespace ConicScaling

open Procedure

variable {α : Type} [Scalar α]

/-! ## Sets without their bounds -/

/-- The block with zeros in place of the bounds of a box. -/
def Block.unbounded : Block α → Block α
  | box lower upper => box (lower.map fun _ => 0) (upper.map fun _ => 0)
  | b => b

@[simp] theorem Block.dim_unbounded (b : Block α) : b.unbounded.dim = b.dim := by
  cases b <;> simp [unbounded, dim]

@[simp] theorem Block.uniformScaling_unbounded (b : Block α) :
    b.unbounded.uniformScaling = b.uniformScaling := by
  cases b <;> rfl

theorem Block.fits_unbounded_iff (n : Nat) (b : Block α) : b.unbounded.Fits n ↔ b.Fits n := by
  cases b <;> simp [unbounded, Fits]

namespace Cone

mutual

/-- The set with zeros in place of all bounds. -/
def unbounded : Cone α → Cone α
  | block b => block b.unbounded
  | product members => product (unboundedMembers members)

def unboundedMembers : List (Cone α) → List (Cone α)
  | [] => []
  | c :: cs => c.unbounded :: unboundedMembers cs

end

theorem unboundedMembers_eq_map (members : List (Cone α)) :
    unboundedMembers members = members.map unbounded := by
  induction members with
  | nil => rfl
  | cons c cs ih => simp [unboundedMembers, ih]

theorem dim_unbounded (c : Cone α) : c.unbounded.dim = c.dim := by
  induction c using induction with
  | block b => exact b.dim_unbounded
  | product members ih =>
    have same : dims (unboundedMembers members) = dims members := by
      rw [unboundedMembers_eq_map, dims_eq_map, dims_eq_map, List.map_map]
      exact List.map_congr_left ih
    rw [unbounded, dim, dim, same]

theorem rows_unboundedMembers (members : List (Cone α)) :
    rows (unboundedMembers members) = rows members := by
  have same : dims (unboundedMembers members) = dims members := by
    rw [unboundedMembers_eq_map, dims_eq_map, dims_eq_map, List.map_map]
    exact List.map_congr_left fun c _ => c.dim_unbounded
  rw [rows, rows, same]

theorem uniformScaling_unbounded (c : Cone α) : c.unbounded.uniformScaling = c.uniformScaling := by
  induction c using induction with
  | block b => exact b.uniformScaling_unbounded
  | product members ih =>
    rw [unbounded, uniformScaling, uniformScaling]
    induction members with
    | nil => rfl
    | cons c cs ihs =>
      rw [unboundedMembers, someUniform, someUniform, ih c (by simp),
        ihs fun d hd => ih d (by simp [hd])]

theorem fitMembers_unboundedMembers_iff (members : List (Cone α)) (rows : List RowRange) {n : Nat}
    (each : ∀ c ∈ members, ∀ n, c.unbounded.Fits n ↔ c.Fits n) :
    FitMembers n (unboundedMembers members) rows ↔ FitMembers n members rows := by
  induction members generalizing rows with
  | nil => cases rows <;> rfl
  | cons c cs ih =>
    cases rows with
    | nil => rfl
    | cons r rest =>
      exact and_congr (each c (by simp) _) (ih rest fun d hd => each d (by simp [hd]))

theorem fits_unbounded_iff (c : Cone α) (n : Nat) : c.unbounded.Fits n ↔ c.Fits n := by
  induction c using induction generalizing n with
  | block b => exact b.fits_unbounded_iff n
  | product members ih =>
    rw [unbounded, Fits, Fits, rows_unboundedMembers]
    exact fitMembers_unboundedMembers_iff members _ ih

theorem correctedMembers_unboundedMembers (e work : Array α) (members : List (Cone α))
    (rows : List RowRange)
    (each : ∀ c ∈ members, ∀ e work : Array α, c.unbounded.corrected e work = c.corrected e work) :
    correctedMembers e work (unboundedMembers members) rows =
      correctedMembers e work members rows := by
  induction members generalizing rows work with
  | nil => cases rows <;> rfl
  | cons c cs ih =>
    cases rows with
    | nil => rfl
    | cons r rest =>
      have tail (work : Array α) := ih work rest fun d hd => each d (by simp [hd])
      simp only [unboundedMembers, correctedMembers, each c (by simp), tail]

theorem corrected_unbounded (c : Cone α) (e work : Array α) :
    c.unbounded.corrected e work = c.corrected e work := by
  induction c using induction generalizing e work with
  | block b => simp only [unbounded, corrected, Block.uniformScaling_unbounded]
  | product members ih =>
    rw [unbounded, corrected, corrected, rows_unboundedMembers]
    exact correctedMembers_unboundedMembers e work members _ ih

theorem corrections_unbounded (c : Cone α) (e : Array α) :
    c.unbounded.corrections e = c.corrections e :=
  c.corrected_unbounded e _

end Cone

/-! ## Stages without the right-hand side -/

namespace Data

/-- The data without the right-hand side. -/
def withoutB (d : Data (DataMatrix α) α) : Data (DataMatrix α) α := { d with b := #[] }

theorem withoutB_scaled (D E : Diagonal α) (c : α) (d : Data (DataMatrix α) α) :
    (d.scaled D E c).withoutB = d.withoutB.scaled D E c := by
  have empty : E.applied #[] = #[] := by
    cases E with
    | identity => rfl
    | entries e => simp [Diagonal.applied, Diagonal.times]
  unfold scaled
  split <;> simp only [withoutB, costed, empty]

end Data

namespace Stage

def withoutB (s : Stage α) : Stage α := { s with data := s.data.withoutB }

omit [Scalar α] in
theorem exists_b_of_withoutB {s t : Stage α} (same : s.withoutB = t.withoutB) :
    ∃ b, t = { s with data.b := b } := by
  refine ⟨t.data.b, ?_⟩
  obtain ⟨⟨P, A, q, b⟩, D, E, progress⟩ := s
  obtain ⟨⟨P', A', q', b'⟩, D', E', progress'⟩ := t
  simp only [withoutB, Data.withoutB, mk.injEq, Data.mk.injEq] at same ⊢
  grind

variable (l : Limiter α) (s : Stage α)

theorem withoutB_balanced : (s.balanced l).withoutB = s.withoutB.balanced l := by
  simp only [withoutB, balanced, Data.withoutB_scaled]
  rfl

theorem withoutB_recosted : (s.recosted l).withoutB = s.withoutB.recosted l := by
  have same : s.withoutB.data.costFactor? l = s.data.costFactor? l := rfl
  unfold recosted
  rw [same]
  cases s.data.costFactor? l <;> rfl

theorem withoutB_pass : (s.pass l).withoutB = s.withoutB.pass l := by
  rw [pass, withoutB_recosted, withoutB_balanced, pass]

theorem withoutB_passes (k : Nat) : (s.passes l k).withoutB = s.withoutB.passes l k := by
  induction k generalizing s with
  | zero => rfl
  | succ k ih => rw [passes, ih, withoutB_pass, passes]

theorem works_withoutB (cols rows : Array α) (k : Nat) :
    s.withoutB.works l cols rows k = s.works l cols rows k := by
  induction k generalizing s cols rows with
  | zero => rfl
  | succ k ih =>
    rw [works, ← withoutB_pass, ih, works, ← withoutB_balanced]
    rfl

theorem correction?_unbounded (c : Cone α) : s.correction? c.unbounded = s.correction? c := by
  rw [correction?, correction?, c.uniformScaling_unbounded, c.corrections_unbounded]

theorem withoutB_rectified (c : Cone α) :
    (s.rectified c).withoutB = s.withoutB.rectified c.unbounded := by
  have same : s.withoutB.correction? c.unbounded = s.correction? c := s.correction?_unbounded c
  unfold rectified
  rw [same]
  cases s.correction? c with
  | none => rfl
  | some e => simp only [withoutB, Data.withoutB_scaled]

theorem withoutB_symmetrized : s.symmetrized.withoutB = s.withoutB.symmetrized := by
  have same : s.withoutB.data.P.isSymmetric = s.data.P.isSymmetric := rfl
  unfold symmetrized
  rw [same]
  split <;> rfl

theorem withoutB_finished (c : Cone α) (k : Nat) :
    (s.finished l c k).withoutB = s.withoutB.finished l c.unbounded k := by
  have same : (s.withoutB.passes l k).correction? c.unbounded = (s.passes l k).correction? c := by
    rw [← withoutB_passes]
    exact correction?_unbounded _ c
  unfold finished
  dsimp only
  rw [same, ← withoutB_passes, ← withoutB_rectified]
  split
  · rw [withoutB_symmetrized]
  · rfl

end Stage

/-! ## Workspaces -/

namespace Settings

/-- The settings with both flags forgotten. -/
def withoutFlags (s : Settings α) : Settings α := { s with reverseData := .null, verbose := .null }

end Settings

namespace Workspace

/-- What is left of a workspace that is not scaled yet when all is forgotten that the scaling does
not depend on. -/
def core (w : Workspace α) : Workspace α where
  data := w.data.withoutB
  cones := w.cones.unbounded
  settings := w.settings.withoutFlags
  scaling := .identity 0 0
  iterates := .zeros 0 0
  phase := w.phase

variable (w : Workspace α)

theorem lastPass_core : w.core.lastPass = w.lastPass.withoutB :=
  (Stage.withoutB_passes w.settings.limiter (.start w.data) w.settings.passes).symm

theorem final_core : w.core.final = w.final.withoutB :=
  (Stage.withoutB_finished w.settings.limiter (.start w.data) w.cones w.settings.passes).symm

theorem lastWorks_core : w.core.lastWorks = w.lastWorks :=
  Stage.works_withoutB w.settings.limiter (.start w.data) w.data.columnNorms w.data.rowNorms
    w.settings.passes

theorem workRows_core : w.core.workRows = w.workRows := by
  unfold workRows
  rw [lastPass_core, lastWorks_core]
  simp only [core, Cone.uniformScaling_unbounded, Cone.corrections_unbounded]
  rfl

theorem report_core : w.core.report = w.report := by
  unfold report
  rw [lastPass_core, final_core]
  have same : w.lastPass.withoutB.correction? w.core.cones = w.lastPass.correction? w.cones :=
    w.lastPass.correction?_unbounded w.cones
  rw [same]
  rfl

variable {w}

/-- Whether two workspaces have the same scaling, and the same data apart from `b`. -/
structure SameScaling (w w' : Workspace α) : Prop where
  scaling : w.scaling = w'.scaling
  P : w.data.P = w'.data.P
  A : w.data.A = w'.data.A
  q : w.data.q = w'.data.q

/-- Whether two problems have the same `P`, `A` and `q`, and the same sets up to the bounds of
boxes. -/
structure SameShape (w w' : Workspace α) : Prop where
  P : w.data.P = w'.data.P
  A : w.data.A = w'.data.A
  q : w.data.q = w'.data.q
  cones : w.cones.unbounded = w'.cones.unbounded

/-- How equilibrating two workspaces may end, so that nobody who sees the scaling, the report and
the data apart from `b` can tell one from the other. -/
inductive EndsAlike (given given' : Option (Source α)) (r r' : Run α) : Prop
  | refused {f f' : Fault α} (left : (equilibrate given).run r = .error f r)
      (right : (equilibrate given').run r' = .error f' r')
  | stopped {f : Fault α} {r₁ r₁' : Run α} (left : (equilibrate given).run r = .error f r₁)
      (right : (equilibrate given').run r' = .error f r₁')
      (same : r₁.workspace.SameScaling r₁'.workspace)
  | scaled {report : Report α} {r₁ r₁' : Run α} (left : (equilibrate given).run r = .ok report r₁)
      (right : (equilibrate given').run r' = .ok report r₁')
      (same : r₁.workspace.SameScaling r₁'.workspace)

theorem core_eq_of_sameShape {w w' : Workspace α} (same : w.SameShape w')
    (settings : w.settings.withoutFlags = w'.settings.withoutFlags) (phase : w.phase = w'.phase) :
    w.core = w'.core := by
  simp only [core, Data.withoutB, same.P, same.A, same.q, same.cones, settings, phase]

section Core

variable {w w' : Workspace α} (same : w.core = w'.core)

include same

theorem m_eq_of_core : w.m = w'.m := by
  have rows : w.core.m = w'.core.m := by rw [same]
  exact rows

theorem fits_iff_of_core (n : Nat) : w.cones.Fits n ↔ w'.cones.Fits n := by
  have cones : w.cones.unbounded = w'.cones.unbounded := congrArg Workspace.cones same
  rw [← w.cones.fits_unbounded_iff, cones, w'.cones.fits_unbounded_iff]

theorem exists_final_eq : ∃ b, w'.final = { w.final with data.b := b } := by
  apply Stage.exists_b_of_withoutB
  rw [← final_core, same, final_core]

theorem report_eq_of_core : w.report = w'.report := by rw [← report_core, same, report_core]

theorem sameScaling_reached : (w.reached w.final).SameScaling (w'.reached w'.final) := by
  obtain ⟨b, final⟩ := exists_final_eq same
  constructor <;> simp only [reached, final]

theorem sameScaling_equilibrated : w.equilibrated.SameScaling w'.equilibrated := by
  obtain ⟨b, final⟩ := exists_final_eq same
  constructor <;> simp only [equilibrated, scaledTo, reached, final]

theorem sameScaling_stuck : w.stuck.SameScaling w'.stuck := by
  obtain ⟨b, final⟩ := exists_final_eq same
  have works : w.lastWorks = w'.lastWorks := by rw [← lastWorks_core, same, lastWorks_core]
  have rows : w.workRows = w'.workRows := by rw [← workRows_core, same, workRows_core]
  constructor <;> simp only [stuck, final, works, rows]

end Core

/-- With the settings in place, workspaces with one core end alike. -/
theorem endsAlike_of_core {r r' : Run α} {given given' : Option (Source α)} {s s' : Settings α}
    (valid : r.workspace.Valid) (valid' : r'.workspace.Valid) (raw : r.workspace.phase = .raw)
    (raw' : r'.workspace.phase = .raw) (chosen : r.workspace.settings.chosen? given = .ok s)
    (chosen' : r'.workspace.settings.chosen? given' = .ok s')
    (same : { r.workspace with settings := s }.core = { r'.workspace with settings := s' }.core) :
    EndsAlike given given' r r' := by
  have ran := run_equilibrate_of_chosen raw chosen
  have ran' := run_equilibrate_of_chosen raw' chosen'
  obtain ⟨journal, fitting, misfitting, -⟩ := run_equilibrateChosen
    (r := { r with workspace.settings := s }) (valid.with_settings s)
  obtain ⟨journal', fitting', misfitting', -⟩ := run_equilibrateChosen
    (r := { r' with workspace.settings := s' }) (valid'.with_settings s')
  by_cases fits : r.workspace.cones.Fits r.workspace.m
  · have fits' : r'.workspace.cones.Fits r'.workspace.m :=
      m_eq_of_core same ▸ (fits_iff_of_core same _).1 fits
    obtain ⟨b, final⟩ := exists_final_eq same
    have end₁ := ran.trans (fitting fits)
    have end₁' := ran'.trans (fitting' fits')
    rw [← report_eq_of_core same] at end₁'
    cases zero : Scalar.same { r.workspace with settings := s }.final.progress.cost 0 with
    | true =>
      rw [if_pos zero] at end₁
      rw [if_pos (by rw [final]; exact zero)] at end₁'
      exact .stopped end₁ end₁' (sameScaling_reached same)
    | false =>
      rw [if_neg (by simp [zero])] at end₁
      rw [if_neg (by rw [final]; simp [zero])] at end₁'
      exact .scaled end₁ end₁' (sameScaling_equilibrated same)
  · have misfit' : ¬ r'.workspace.cones.Fits r'.workspace.m := fun fits' =>
      fits ((fits_iff_of_core same _).2 (m_eq_of_core same ▸ fits'))
    exact .stopped (ran.trans (misfitting fits)) (ran'.trans (misfitting' misfit'))
      (sameScaling_stuck same)

/-- Equilibration ends alike whatever `b`, the bounds of boxes, the iterates and the flags are. -/
theorem equilibrate_ignores {r r' : Run α} (valid : r.workspace.Valid) (valid' : r'.workspace.Valid)
    (raw : r.workspace.phase = .raw) (raw' : r'.workspace.phase = .raw)
    (same : r.workspace.SameShape r'.workspace) {given given' : Option (Source α)}
    (settings : (r.workspace.settings.chosen? given).toOption.map Settings.withoutFlags =
      (r'.workspace.settings.chosen? given').toOption.map Settings.withoutFlags) :
    EndsAlike given given' r r' := by
  cases chosen : r.workspace.settings.chosen? given with
  | error f =>
    cases chosen' : r'.workspace.settings.chosen? given' with
    | error f' =>
      exact .refused (run_equilibrate_of_rejected raw chosen)
        (run_equilibrate_of_rejected raw' chosen')
    | ok s' => simp [chosen, chosen', Except.toOption] at settings
  | ok s =>
    cases chosen' : r'.workspace.settings.chosen? given' with
    | error f' => simp [chosen, chosen', Except.toOption] at settings
    | ok s' =>
      have flags : s.withoutFlags = s'.withoutFlags := by
        simpa [chosen, chosen', Except.toOption] using settings
      refine endsAlike_of_core valid valid' raw raw' chosen chosen' ?_
      exact core_eq_of_sameShape ⟨same.P, same.A, same.q, same.cones⟩ flags (raw.trans raw'.symm)

/-- A problem with an infinite entry, in which all that does not matter is made of one number. -/
def clouded (x : Float) (flag : Bool) : Workspace Float where
  data :=
    { P := ⟨.double, .sparse .column 2 #[[(0, 4), (1, Scalar.infinity)], [(0, 1)]]⟩
      A := ⟨.double, .sparse .row 2 #[[(0, 1)], [(1, 2)], [(0, 3), (1, -1)], []]⟩
      q := #[1, -2]
      b := #[x, x, x, x] }
  cones := .product [.block (.box #[x] #[x]),
    .product [.block (.secondOrder 2), .block (.nonnegative 1)]]
  settings := { Settings.standard with reverseData := .bool flag, verbose := .bool flag }
  scaling := .identity 2 4
  iterates := ⟨#[x, x], #[x, x, x, x], #[x, x, x, x]⟩
  phase := .raw

theorem valid_clouded (x : Float) (flag : Bool) : (clouded x flag).Valid where
  data := by
    constructor <;> simp [clouded, Storage.WellFormed, Storage.count, m, n] <;> grind
  scaling := by constructor <;> rfl
  iterates := by constructor <;> rfl
  dim := by
    refine Cone.dim_eq_extent ?_
    simp [clouded, Cone.extent, Cone.leaves, Cone.leavesOf, Block.dim, countLimit]
  balanced := by
    simp [Cone.Balanced, clouded, Cone.leaves, Cone.leavesOf, Block.Balanced]

theorem equilibrate_ignores_clouded :
    EndsAlike none none ⟨clouded Scalar.nan true, #[]⟩ ⟨clouded 1 false, #[]⟩ := by
  have cones : (clouded Scalar.nan true).cones.unbounded = (clouded 1 false).cones.unbounded := by
    simp [clouded, Cone.unbounded, Cone.unboundedMembers, Block.unbounded]
  refine equilibrate_ignores (valid_clouded _ _) (valid_clouded _ _) rfl rfl ?_ rfl
  exact ⟨rfl, rfl, rfl, cones⟩

end Workspace

end ConicScaling
