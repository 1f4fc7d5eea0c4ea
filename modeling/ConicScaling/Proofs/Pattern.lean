import ConicScaling.Proofs.Calls
import ConicScaling.Proofs.Norms

/-!
# Stored positions

What a matrix stores apart from its values: layout, stored positions and precision. Every step of
equilibration and of the way back leaves them alone, also when it fails, except the one that makes
`P` symmetric. So what a workspace promises of its matrices when it is set up holds from then on.
-/
namespace ConicScaling

open Procedure

variable {α β γ : Type}

namespace Storage

/-- The matrix without its values. -/
def pattern (S : Storage β) : Storage Unit := S.map fun _ => ()

@[simp] theorem pattern_mapEntries (f : Nat → Nat → β → γ) (S : Storage β) :
    (S.mapEntries f).pattern = S.pattern :=
  mapEntries_mapEntries f _ S

@[simp] theorem count_pattern (S : Storage β) (axis : Axis) : S.pattern.count axis = S.count axis :=
  count_mapEntries _ S axis

@[simp] theorem layout_pattern (S : Storage β) : S.pattern.layout = S.layout :=
  layout_mapEntries _ S

/-- Whether slices are canonical does not depend on their values. -/
theorem isCanonical_pattern_iff {S : Storage β} : S.pattern.IsCanonical ↔ S.IsCanonical := by
  refine ⟨fun h => ?_, fun h => h.mapEntries _⟩
  cases S with
  | dense cols rows => trivial
  | sparse major minor slices =>
    intro slice member
    obtain ⟨k, inside, rfl⟩ := Array.mem_iff_getElem.1 member
    have sorted := List.pairwise_map.1 (h _ (Array.mem_mapIdx.2 ⟨k, inside, rfl⟩))
    exact sorted

/-- Whether stored positions are in range does not depend on the values either. -/
theorem wellFormed_pattern_iff {S : Storage β} : S.pattern.WellFormed ↔ S.WellFormed := by
  refine ⟨fun h => ?_, fun h => h.mapEntries _⟩
  cases S with
  | dense cols rows =>
    intro row member
    obtain ⟨i, inside, rfl⟩ := Array.mem_iff_getElem.1 member
    simpa using h _ (Array.mem_mapIdx.2 ⟨i, inside, rfl⟩)
  | sparse major minor slices =>
    intro slice member e stored
    obtain ⟨k, inside, rfl⟩ := Array.mem_iff_getElem.1 member
    exact h _ (Array.mem_mapIdx.2 ⟨k, inside, rfl⟩) (e.1, ()) (List.mem_map.2 ⟨e, stored, rfl⟩)

@[simp] theorem layout_symmetrized (add : β → β → β) (zero : β) (isZero : β → Bool)
    (finish : β → γ) (S : Storage β) :
    (S.symmetrized add zero isZero finish).layout = S.layout := by
  rcases S with _ | ⟨_ | _, _, _⟩ <;> rfl

end Storage

/-! ## Matrices -/

namespace DataMatrix

/-- Everything that a matrix is apart from its values. -/
def form (M : DataMatrix α) : Precision × Storage Unit := (M.precision, M.storage.pattern)

/-- A matrix as workspaces hold it: indices in range and strictly increasing, and doubles if it is
dense. -/
structure Kept (M : DataMatrix α) : Prop where
  wellFormed : M.storage.WellFormed
  canonical : M.storage.IsCanonical
  double : M.storage.layout = .dense → M.precision = .double

variable {M N : DataMatrix α}

theorem pattern_eq_of_form (same : N.form = M.form) : N.storage.pattern = M.storage.pattern :=
  congrArg Prod.snd same

/-- Values do not matter for a matrix to be kept. -/
theorem Kept.of_form (h : M.Kept) (same : N.form = M.form) : N.Kept := by
  have pattern := pattern_eq_of_form same
  refine ⟨?_, ?_, fun dense => ?_⟩
  · rw [← Storage.wellFormed_pattern_iff, pattern]
    exact Storage.wellFormed_pattern_iff.2 h.wellFormed
  · rw [← Storage.isCanonical_pattern_iff, pattern]
    exact Storage.isCanonical_pattern_iff.2 h.canonical
  · rw [← Storage.layout_pattern, pattern, Storage.layout_pattern] at dense
    exact (congrArg Prod.fst same).trans (h.double dense)

variable [Scalar α]

theorem Kept.symmetrized (h : M.Kept) (square : M.storage.shape.1 = M.storage.shape.2) :
    M.symmetrized.Kept where
  wellFormed := wellFormed_symmetrized h.wellFormed square
  canonical := isCanonical_symmetrized h.canonical
  double := by
    intro dense
    refine h.double ?_
    simpa [DataMatrix.symmetrized] using dense

variable {f : Precision × Storage Unit}

theorem keeps_scaleAlong (axis : Axis) (d : Diagonal α) :
    Keeps (fun M : DataMatrix α => M.form = f) (scaleAlong axis d) := by
  cases d with
  | identity => exact fun _ same => same
  | entries d =>
    refine keeps_modify? fun M N same scaled => ?_
    obtain ⟨_, -, made⟩ := exists_of_bind_eq_ok scaled
    cases made
    rw [← same]
    simp [form, Diagonal.scaleLines]

theorem keeps_scale (L R : Diagonal α) :
    Keeps (fun M : DataMatrix α => M.form = f) (scale L R) := by
  -- the order of the products is read off first
  refine keeps_bind (fun _ same => same) fun M => ?_
  exact keeps_bind (keeps_scaleAlong _ _) fun _ => keeps_scaleAlong _ _

theorem form_multiplied (c : α) (M : DataMatrix α) : (M.multiplied c).form = M.form := by
  simp [form, multiplied, Storage.map]

/-- How the form of a matrix may change: not at all, or to that of a symmetric part. Values may
change before the symmetric part is taken, and after. -/
inductive Evolves (M : DataMatrix α) : DataMatrix α → Prop
  | kept {N : DataMatrix α} (same : N.form = M.form) : Evolves M N
  | symmetrized {L N : DataMatrix α} (before : L.form = M.form) (differs : L.isSymmetric = false)
      (square : L.storage.shape.1 = L.storage.shape.2) (after : N.form = L.symmetrized.form) :
      Evolves M N

theorem Evolves.trans_form {L : DataMatrix α} (h : M.Evolves N) (same : L.form = N.form) :
    M.Evolves L := by
  cases h with
  | kept kept => exact .kept (same.trans kept)
  | symmetrized before differs square after =>
    exact .symmetrized before differs square (same.trans after)

theorem Kept.evolves (h : M.Kept) (evolves : M.Evolves N) : N.Kept := by
  cases evolves with
  | kept same => exact h.of_form same
  | symmetrized before differs square after =>
    exact ((h.of_form before).symmetrized square).of_form after

end DataMatrix

/-! ## Problem data -/

namespace Data

/-- Whether the matrices have given forms. -/
def HasForms (f g : Precision × Storage Unit) (d : Data (DataMatrix α) α) : Prop :=
  d.P.form = f ∧ d.A.form = g

/-- Whether both matrices are as workspaces hold them. -/
structure Kept (d : Data (DataMatrix α) α) : Prop where
  P : d.P.Kept
  A : d.A.Kept

variable {f g : Precision × Storage Unit}

theorem keeps_onP {act : EStateM (Fault α) (DataMatrix α) Unit}
    (keeps : Keeps (fun M => M.form = f) act) :
    Keeps (HasForms f g) (onP (α := α) act) :=
  keeps_focus keeps (fun _ h => h.1) fun _ _ h same => ⟨same, h.2⟩

theorem keeps_onA {act : EStateM (Fault α) (DataMatrix α) Unit}
    (keeps : Keeps (fun M => M.form = g) act) :
    Keeps (HasForms f g) (onA (α := α) act) :=
  keeps_focus keeps (fun _ h => h.2) fun _ _ h same => ⟨h.1, same⟩

theorem keeps_onq (act : EStateM (Fault α) (Array α) Unit) :
    Keeps (HasForms f g) (onq (μ := DataMatrix α) act) :=
  keeps_focus (J := fun _ => True) (fun _ _ => trivial) (fun _ _ => trivial) fun _ _ h _ => h

theorem keeps_onb (act : EStateM (Fault α) (Array α) Unit) :
    Keeps (HasForms f g) (onb (μ := DataMatrix α) act) :=
  keeps_focus (J := fun _ => True) (fun _ _ => trivial) (fun _ _ => trivial) fun _ _ h _ => h

variable [Scalar α]

/-- How data may change: `A` keeps its form and `P` may be made symmetric. -/
structure Evolves (d e : Data (DataMatrix α) α) : Prop where
  P : d.P.Evolves e.P
  A : e.A.form = d.A.form

theorem Kept.evolves {d e : Data (DataMatrix α) α} (h : d.Kept) (evolves : d.Evolves e) : e.Kept :=
  ⟨h.P.evolves evolves.P, h.A.of_form evolves.A⟩

theorem Evolves.of_hasForms {d e : Data (DataMatrix α) α} (same : e.HasForms d.P.form d.A.form) :
    d.Evolves e :=
  ⟨.kept same.1, same.2⟩

theorem Evolves.trans_hasForms {d e e' : Data (DataMatrix α) α} (h : d.Evolves e)
    (same : e'.HasForms e.P.form e.A.form) : d.Evolves e' :=
  ⟨h.P.trans_form same.1, same.2.trans h.A⟩

theorem keeps_multiplyCost (c : α) :
    Keeps (HasForms f g) (multiplyCost (μ := DataMatrix α) c) := by
  refine keeps_bind (keeps_onP fun M same => ?_) fun _ => keeps_onq _
  exact (DataMatrix.form_multiplied c M).trans same

theorem keeps_scale (D E : Diagonal α) (c : α) :
    Keeps (HasForms f g) (scale (μ := DataMatrix α) D E c) := by
  refine keeps_bind (keeps_onP (DataMatrix.keeps_scale D D)) fun _ => ?_
  refine keeps_bind (keeps_onA (DataMatrix.keeps_scale E D)) fun _ => ?_
  refine keeps_bind (keeps_onq _) fun _ => keeps_bind (keeps_onb _) fun _ => ?_
  split
  · exact keeps_multiplyCost c
  · exact fun _ h => h

end Data

/-! ## Procedures -/

variable [Scalar α]

/-- Whether the matrices of a workspace have given forms. -/
def Run.HasForms (f g : Precision × Storage Unit) (r : Run α) : Prop :=
  r.workspace.data.HasForms f g

/-- Whether the data of a workspace have come from given ones. -/
def Run.EvolvesFrom (d : Data (DataMatrix α) α) (r : Run α) : Prop :=
  d.Evolves r.workspace.data

namespace Workspace

variable {f g : Precision × Storage Unit}

theorem keeps_onData {act : EStateM (Fault α) (Data (DataMatrix α) α) β}
    (keeps : Keeps (Data.HasForms f g) act) : Keeps (Run.HasForms f g) (onData act) :=
  keeps_focus keeps (fun _ h => h) fun _ _ _ same => same

/-- What runs on another part of the workspace does not concern the data. -/
theorem keeps_elsewhere {τ : Type} {part : Run α → τ} {replace : τ → Run α → Run α}
    (act : EStateM (Fault α) τ β) (apart : ∀ t r, (replace t r).workspace.data = r.workspace.data) :
    Keeps (Run.HasForms f g) (focus part replace act) := by
  refine keeps_focus (J := fun _ => True) (fun _ _ => trivial) (fun _ _ => trivial)
    fun r t h _ => ?_
  rw [Run.HasForms, apart]
  exact h

theorem keeps_onScaling (act : EStateM (Fault α) (Scaling α) β) :
    Keeps (Run.HasForms f g) (onScaling act) :=
  keeps_elsewhere act fun _ _ => rfl

theorem keeps_onIterates (act : EStateM (Fault α) (Iterates α) β) :
    Keeps (Run.HasForms f g) (onIterates act) :=
  keeps_elsewhere act fun _ _ => rfl

theorem keeps_onJournal (act : Logged α β) : Keeps (Run.HasForms f g) (onJournal act) :=
  keeps_elsewhere act fun _ _ => rfl

theorem keeps_log (e : Event α) : Keeps (Run.HasForms f g) (log e) := keeps_onJournal _

theorem keeps_workspace : Keeps (Run.HasForms f g) (workspace (α := α)) := fun _ h => h

/-! ### Equilibration -/

theorem keeps_measure : Keeps (Run.HasForms f g) (measure (α := α)) :=
  keeps_bind keeps_workspace fun _ => keeps_bind (keeps_ofExcept _) fun _ => keeps_onScaling _

theorem keeps_accumulateE : Keeps (Run.HasForms f g) (accumulateE (α := α)) :=
  keeps_bind keeps_workspace fun _ => keeps_onScaling _

theorem keeps_applyFactors : Keeps (Run.HasForms f g) (applyFactors (α := α)) := by
  refine keeps_bind keeps_workspace fun _ => ?_
  refine keeps_bind (keeps_onData (Data.keeps_scale _ _ _)) fun _ => ?_
  refine keeps_bind ?_ fun _ => keeps_accumulateE
  exact keeps_bind keeps_workspace fun _ => keeps_onScaling _

theorem keeps_scaleCost (number : Nat) (progress : Progress α) :
    Keeps (Run.HasForms f g) (scaleCost number progress) := by
  refine keeps_bind keeps_workspace fun _ => keeps_bind (keeps_ofExcept _) fun _ => ?_
  refine keeps_bind (keeps_onScaling _) fun _ => ?_
  dsimp only
  split
  · refine keeps_bind (keeps_onData (Data.keeps_multiplyCost _)) fun _ => ?_
    exact keeps_bind (keeps_log _) fun _ _ h => h
  · exact keeps_bind (keeps_log _) fun _ _ h => h

theorem keeps_pass (number : Nat) (progress : Progress α) :
    Keeps (Run.HasForms f g) (pass number progress) := by
  refine keeps_bind keeps_measure fun _ => keeps_bind ?_ fun _ => ?_
  · exact keeps_bind keeps_workspace fun _ => keeps_onScaling _
  · exact keeps_bind keeps_applyFactors fun _ => keeps_scaleCost number progress

theorem keeps_passes (number : Nat) (progress : Progress α) (k : Nat) :
    Keeps (Run.HasForms f g) (passes number progress k) := by
  induction k generalizing number progress with
  | zero => exact fun _ h => h
  | succ k ih => exact keeps_bind (keeps_pass number progress) fun _ => ih _ _

theorem keeps_rectify : Keeps (Run.HasForms f g) (rectify (α := α)) := by
  refine keeps_bind keeps_workspace fun w => ?_
  dsimp only
  split
  · exact fun _ h => h
  · refine keeps_bind (keeps_elsewhere _ fun _ _ => rfl) fun changed => ?_
    split
    · refine keeps_bind keeps_workspace fun _ => ?_
      refine keeps_bind (keeps_onData (Data.keeps_scale _ _ _)) fun _ => ?_
      exact keeps_bind keeps_accumulateE fun _ => keeps_bind (keeps_log _) fun _ _ h => h
    · exact fun _ h => h

theorem keeps_invert (cost : α) : Keeps (Run.HasForms f g) (invert cost) := by
  refine keeps_bind (keeps_onScaling _) fun _ => ?_
  split
  · exact fun _ h => h
  · exact keeps_onScaling _

theorem keeps_scaleIterates : Keeps (Run.HasForms f g) (scaleIterates (α := α)) := by
  refine keeps_bind keeps_workspace fun _ => keeps_bind (keeps_onIterates _) fun _ => ?_
  refine keeps_bind (keeps_onIterates _) fun _ => keeps_bind (keeps_onIterates _) fun _ => ?_
  exact keeps_onIterates _

theorem keeps_conclude (before : Scaling α) (passCount : Nat) (progress : Progress α)
    (rectified : Bool) :
    Keeps (Run.HasForms f g) (conclude before passCount progress rectified) := by
  refine keeps_bind (keeps_bind keeps_workspace fun _ => keeps_elsewhere _ fun _ _ => rfl)
    fun _ => ?_
  refine keeps_bind keeps_measure fun _ => keeps_bind keeps_workspace fun _ => ?_
  exact keeps_bind (keeps_invert _) fun _ => keeps_bind keeps_scaleIterates fun _ _ h => h

/-! ### Calls -/

variable {d : Data (DataMatrix α) α}

/-- What keeps all forms keeps the data on their way. -/
theorem keeps_evolves {act : Procedure α β} (keeps : ∀ f g, Keeps (Run.HasForms f g) act) :
    Keeps (Run.EvolvesFrom d) act :=
  fun r h => h.trans_hasForms (keeps _ _ r ⟨rfl, rfl⟩)

/-- The one step after which `P` may store other positions. -/
theorem takes_symmetrize :
    Takes (Run.HasForms d.P.form d.A.form) (Run.EvolvesFrom d) (symmetrize (α := α)) := by
  intro r same
  by_cases symmetric : r.workspace.data.P.isSymmetric = true
  · have ran : symmetrize.run r = .ok () r := by
      refine bind_of_ok (run_workspace r) ?_
      simp only [symmetric]
      rfl
    rw [ran]
    exact .of_hasForms same
  · have skips : (!r.workspace.data.P.isSymmetric) = true := by simpa using symmetric
    by_cases square : r.workspace.data.P.storage.shape.1 = r.workspace.data.P.storage.shape.2
    · have ran : symmetrize.run r =
          .ok () { r with workspace.data.P := r.workspace.data.P.symmetrized } := by
        refine bind_of_ok (run_workspace r) ?_
        rw [if_pos skips]
        exact focus_of_ok (focus_of_ok (modify?_of_ok (if_pos square)))
      rw [ran]
      exact ⟨.symmetrized same.1 (by simpa using symmetric) square rfl, same.2⟩
    · have ran : symmetrize.run r = .error .notSquare r := by
        refine bind_of_ok (run_workspace r) ?_
        rw [if_pos skips]
        exact focus_of_error (focus_of_error (modify?_of_error (if_neg square)))
      rw [ran]
      exact .of_hasForms same

theorem takes_ruiz :
    Takes (Run.HasForms d.P.form d.A.form) (Run.EvolvesFrom d) (ruiz (α := α)) := by
  have weaker : ∀ r : Run α, r.HasForms d.P.form d.A.form → r.EvolvesFrom d :=
    fun _ => .of_hasForms
  refine takes_bind (keeps_onScaling _) weaker fun _ => ?_
  refine takes_bind keeps_measure weaker fun _ => ?_
  refine takes_bind keeps_workspace weaker fun _ => takes_bind keeps_workspace weaker fun _ => ?_
  refine takes_bind (keeps_passes _ _ _) weaker fun _ => ?_
  refine takes_bind keeps_rectify weaker fun _ => ?_
  refine takes_bind_ite weaker takes_symmetrize (fun _ h => h) fun _ => ?_
  exact keeps_evolves fun _ _ => keeps_conclude _ _ _ _

theorem takes_equilibrate (given : Option (Source α)) :
    Takes (Run.HasForms d.P.form d.A.form) (Run.EvolvesFrom d) (equilibrate given) := by
  intro r same
  by_cases raw : r.workspace.phase = .raw
  · cases chosen : r.workspace.settings.chosen? given with
    | error f =>
      rw [run_equilibrate_of_rejected raw chosen]
      exact .of_hasForms same
    | ok s =>
      rw [run_equilibrate_of_chosen raw chosen]
      refine takes_bind takes_ruiz (fun _ h => h) (fun _ => ?_)
        { r with workspace.settings := s } same
      refine keeps_bind (fun _ h => h) fun _ => keeps_bind (fun _ h => h) fun _ => ?_
      exact keeps_bind (keeps_evolves fun _ _ => keeps_log _) fun _ _ h => h
  · rw [run_equilibrate_of_not_raw raw]
    exact .of_hasForms same

theorem keeps_reverse : Keeps (Run.HasForms f g) (reverse (α := α)) := by
  refine keeps_bind keeps_workspace fun w => ?_
  dsimp only
  split
  · exact fun _ h => h
  · refine keeps_bind ?_ fun _ => keeps_bind (fun _ h => h) fun _ => keeps_log _
    refine keeps_bind ?_ fun _ => keeps_bind keeps_workspace fun w => ?_
    · refine keeps_bind keeps_workspace fun _ => keeps_bind (keeps_onIterates _) fun _ => ?_
      refine keeps_bind (keeps_onIterates _) fun _ => keeps_bind (keeps_onIterates _) fun _ => ?_
      exact keeps_onIterates _
    · split
      · refine keeps_bind keeps_workspace fun _ => ?_
        refine keeps_bind (keeps_onData (Data.keeps_scale _ _ _)) fun _ => ?_
        exact keeps_elsewhere _ fun _ _ => rfl
      · exact fun _ h => h

theorem keeps_forms_startIterate (input : Input) (n : Nat)
    (store : Array α → Iterates α → Iterates α) (v : Option (Operand α)) :
    Keeps (Run.HasForms f g) (startIterate input n store v) := by
  unfold startIterate
  split
  · exact fun _ h => h
  · exact fun _ h => h
  · exact keeps_bind (keeps_onJournal _) fun _ => keeps_onIterates _

theorem keeps_warmStart (x s mu : Option (Operand α)) :
    Keeps (Run.HasForms f g) (warmStart x s mu) := by
  refine keeps_bind keeps_workspace fun w => ?_
  dsimp only
  split
  · exact fun _ h => h
  · refine keeps_bind (keeps_forms_startIterate _ _ _ _) fun _ => ?_
    exact keeps_bind (keeps_forms_startIterate _ _ _ _) fun _ => keeps_forms_startIterate _ _ _ _

/-- Whatever a call does, also when it fails, it leaves the stored positions of `A` alone, and
those of `P` unless that is made symmetric. -/
theorem evolves_perform (call : Call α) (r : Run α) :
    r.workspace.data.Evolves (ended (call.perform.run r)).2.workspace.data := by
  cases call with
  | warmStart x s mu => exact .of_hasForms (keeps_warmStart x s mu r ⟨rfl, rfl⟩)
  | equilibrate given =>
    refine takes_bind (takes_equilibrate given) (fun _ h => h) (fun _ => ?_) r ⟨rfl, rfl⟩
    exact keeps_evolves fun _ _ _ h => h
  | reverse => exact .of_hasForms (keeps_reverse r ⟨rfl, rfl⟩)

end Workspace

end ConicScaling
