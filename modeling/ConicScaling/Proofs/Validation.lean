import ConicScaling.Proofs.Lifecycle
import ConicScaling.Proofs.Nesting

/-!
# Validation

Setting up a workspace compares the sizes of what it is given, and nothing later compares them
again. This is enough: where matrices, vectors and sets are each in order, setting up succeeds
exactly if their sizes agree, and no call that is made in its phase finds lines, entries or rows
that do not belong together.
-/
namespace ConicScaling

open Procedure

variable {α β γ : Type}

/-! ## What is handed over -/

/-- The sets that are handed over, whether as a set or as a sequence. -/
inductive Member.Gives : Member α → List (Cone α) → Prop
  | block (b : Block α) : Gives (.set (.block b)) [.block b]
  | product (sets : List (Cone α)) : Gives (.set (.product sets)) sets
  | sequence (sets : List (Cone α)) : Gives (.sequence (sets.map set)) sets

theorem Member.mapM_toCone? (sets : List (Cone α)) :
    (sets.map set).mapM toCone? = .ok sets := by
  induction sets with
  | nil => rfl
  | cons c sets ih =>
    rw [List.map_cons, List.mapM_cons, ih]
    rfl

/-- Sets that are not too large in all are taken as the members of a product. -/
theorem Member.Gives.toProduct? {member : Member α} {sets : List (Cone α)}
    (gives : member.Gives sets) (small : (Cone.product sets).extent < countLimit) :
    member.toProduct? = .ok (.product sets) := by
  have accepted := Cone.product?_of_lt small
  cases gives with
  | block b => exact accepted
  | product => rfl
  | sequence =>
    rw [Member.toProduct?, Member.product?, mapM_toCone?]
    exact accepted

variable [Scalar α]

namespace Submission

/-- Matrices of real numbers, vectors, sets and settings that can be read, without regard to each
other. -/
structure Reads (p : Submission α) (d : Data (DataMatrix α) α) (sets : List (Cone α)) : Prop where
  P : p.P = .stored (.real d.P.precision d.P.storage)
  A : p.A = .stored (.real d.A.precision d.A.storage)
  q : p.q.entries? = .ok d.q
  b : p.b.entries? = .ok d.b
  cones : p.cones.Gives sets
  settings : ∃ s, Settings.ofSource? p.settings = .ok s
  x : ∀ v ∈ p.x, v.IsVector
  s : ∀ v ∈ p.s, v.IsVector
  mu : ∀ v ∈ p.mu, v.IsVector

/-- Whether sizes agree with those of `A`. -/
structure Conforms (p : Submission α) (d : Data (DataMatrix α) α) (sets : List (Cone α)) :
    Prop where
  square : d.P.storage.shape = (d.A.storage.count .column, d.A.storage.count .column)
  q : d.q.size = d.A.storage.count .column
  b : d.b.size = d.A.storage.count .row
  dim : (Cone.product sets).dim = d.A.storage.count .row
  x : ∀ v ∈ p.x, v.Lists (d.A.storage.count .column)
  s : ∀ v ∈ p.s, v.Lists (d.A.storage.count .row)
  mu : ∀ v ∈ p.mu, v.Lists (d.A.storage.count .row)

end Submission

/-! ## Taking it in -/

namespace Workspace

/-- A workspace starts with the iterates that it is given if they have the right lengths. -/
theorem checks_start {x s mu : Option (Operand α)} (vectorx : ∀ u ∈ x, u.IsVector)
    (vectors : ∀ u ∈ s, u.IsVector) (vectormu : ∀ u ∈ mu, u.IsVector)
    (data : Data (DataMatrix α) α) (cones : Cone α) (settings : Settings α) :
    Checks ((Call.warmStart x s mu).Fits (data.A.storage.count .row) (data.A.storage.count .column))
      (fun _ => True) (fun journal =>
        match warmStart x s mu ⟨fresh data cones settings, journal⟩ with
        | .ok _ r => .ok r.workspace r.journal
        | .error f r => .error f r.journal : Logged α (Workspace α)) := by
  intro journal
  have raw : (Run.mk (fresh data cones settings) journal).workspace.phase = .raw := rfl
  have same := run_warmStart_of_raw raw x s mu
  have checks := (checks_storeIterates (fun u h => (vectorx u h).2) (fun u h => (vectors u h).2)
    (fun u h => (vectormu u h).2) (data.A.storage.count .row) (data.A.storage.count .column)).congr
    (and_congr (lists_of_given_iff vectorx _)
      (and_congr (lists_of_given_iff vectors _) (lists_of_given_iff vectormu _)))
  obtain ⟨accepts, refuses⟩ := checks ⟨fresh data cones settings, journal⟩
  refine ⟨fun fits => ?_, fun misfits => ?_⟩
  · obtain ⟨_, r, ran, -⟩ := accepts fits
    refine ⟨r.workspace, r.journal, ?_, trivial⟩
    simp only [EStateM.run, show warmStart x s mu _ = _ from same.trans ran]
  · obtain ⟨f, r, ran, kind⟩ := refuses misfits
    refine ⟨f, r.journal, ?_, kind⟩
    simp only [EStateM.run, show warmStart x s mu _ = _ from same.trans ran]

section SetUp

variable {p : Submission α} {d : Data (DataMatrix α) α} {sets : List (Cone α)}
  (reads : p.Reads d sets) (small : (Cone.product sets).extent < countLimit)

include reads small

theorem checks_intakeData :
    Checks (d.P.storage.shape = (d.A.storage.count .column, d.A.storage.count .column) ∧
        d.q.size = d.A.storage.count .column ∧ d.b.size = d.A.storage.count .row ∧
        (Cone.product sets).dim = d.A.storage.count .row)
      (fun taken => taken.1.A.storage.shape = d.A.storage.shape) (intakeData p) := by
  have product := reads.cones.toProduct? small
  refine (checks_bind (reads.A ▸ Operand.checks_intakeMatrix .A _ _) ?_).congr
    (and_iff_right trivial)
  intro A shapeA
  rw [shapeA]
  refine (checks_bind (reads.P ▸ Operand.checks_intakeMatrix .P _ _) ?_).congr
    (and_iff_right trivial)
  intro P shapeP
  rw [shapeP]
  refine (checks_guard rfl ?_).congr (and_congr_left' not_not)
  refine checks_bind (Operand.checks_intakeVector reads.q .q _) fun q sameq => ?_
  refine checks_bind (Operand.checks_intakeVector reads.b .b _) fun b sameb => ?_
  refine (checks_bind (checks_ofExcept product) ?_).congr (and_iff_right trivial)
  rintro _ rfl
  refine (checks_guard rfl ?_).congr ((and_iff_left trivial).trans not_not)
  exact checks_pure shapeA

/-- Setting up succeeds exactly if the sizes agree. -/
theorem checks_setUp : Checks (p.Conforms d sets) (fun _ => True) (setUp p) := by
  obtain ⟨s, accepted⟩ := reads.settings
  refine (checks_bind (q := (Call.warmStart p.x p.s p.mu).Fits (d.A.storage.count .row)
    (d.A.storage.count .column)) (checks_intakeData reads small) ?_).congr ?_
  · rintro ⟨data, cones⟩ shape
    refine (checks_bind (checks_ofExcept accepted) ?_).congr (and_iff_right trivial)
    intro settings _
    have starts := checks_start reads.x reads.s reads.mu data cones settings
    have rows : data.A.storage.count .row = d.A.storage.count .row := congrArg Prod.fst shape
    have columns : data.A.storage.count .column = d.A.storage.count .column :=
      congrArg Prod.snd shape
    rwa [rows, columns] at starts
  · constructor
    · rintro ⟨⟨square, q, b, dim⟩, x, s, mu⟩
      exact { square, q, b, dim, x, s, mu }
    · intro h
      exact ⟨⟨h.square, h.q, h.b, h.dim⟩, h.x, h.s, h.mu⟩

end SetUp

end Workspace

/-! ## Calls afterwards -/

/-- Lines, entries or rows that do not belong together, or a matrix that is stored in a way that
cannot be worked with. -/
def Fault.Structural : Fault α → Prop
  | lengthMismatch | notSquare | indexOutOfRange | inexactProduct | divisionByZero
  | unsupportedFormat _ | notMatrix _ => True
  | _ => False

namespace Settings

/-- Whether a conversion never fails for what does not belong together. -/
def Plain (x : Except (Fault α) β) : Prop := ∀ f, x = .error f → ¬ f.Structural

omit [Scalar α] in
theorem plain_bind {x : Except (Fault α) β} {next : β → Except (Fault α) γ} (first : Plain x)
    (rest : ∀ b, Plain (next b)) : Plain (x >>= next) := by
  intro f h
  cases x with
  | ok b => exact rest b f h
  | error g =>
    cases h
    exact first f rfl

theorem plain_toInteger? (v : Value α) : Plain v.toInteger? := by
  intro f h
  unfold Value.toInteger? at h
  repeat' split at h
  all_goals cases h
  all_goals exact id

theorem plain_toScalar? (v : Value α) : Plain v.toScalar? := by
  intro f h
  unfold Value.toScalar? at h
  repeat' split at h
  all_goals cases h
  all_goals exact id

theorem plain_build? (get : String → Option (Value α)) : Plain (build? get) := by
  refine plain_bind (plain_toInteger? _) fun passes => ?_
  refine plain_bind (plain_toScalar? _) fun low => ?_
  refine plain_bind (plain_toScalar? _) fun high => ?_
  intro f h
  by_cases negative : passes < 0
  · simp only [negative, if_true] at h
    cases h
    exact id
  · simp only [negative, if_false] at h
    split at h
    · cases h
    · cases h
      exact id

theorem plain_ofSource? (source : Source α) : Plain (ofSource? source) := by
  cases source with
  | value v =>
    rw [ofSource?]
    exact plain_build? _
  | object attributes =>
    rw [ofSource?]
    exact plain_build? _
  | settings s =>
    intro f h
    cases h

/-- Settings are rejected for what they are themselves. -/
theorem plain_chosen? (current : Settings α) (given : Option (Source α)) :
    Plain (current.chosen? given) := by
  unfold chosen?
  split
  · intro f h
    cases h
  · intro f h
    cases h
  · exact plain_ofSource? _

end Settings

namespace Workspace

theorem Moves.succeeds {w w' : Workspace ℝ} {call : Call ℝ} {fault : Option (Fault ℝ)}
    (moves : Moves w call fault w') (own : w.phase = call.phase) (fits : call.Fits w.m w.n) :
    fault = none ∨ ∃ given f, call = .equilibrate given ∧
      w.settings.chosen? given = .error f ∧ fault = some f := by
  cases moves with
  | refused other => exact absurd own other
  | warmed _ _ stored => exact .inl (stored fits)
  | rejected _ rejected => exact .inr ⟨_, _, rfl, rejected, rfl⟩
  | equilibrated => exact .inl rfl
  | returned => exact .inl rfl

/-- What setting up a workspace checks, and what its checks are good for. -/
structure Validates (p : Submission ℝ) (conforms : Prop) (journal : Journal ℝ) : Prop where
  accepts : conforms → ∃ w after, (setUp p).run journal = .ok w after
  refuses : ¬ conforms → ∃ f after, (setUp p).run journal = .error f after ∧ f.kind = .value
  /-- A call in its phase, with iterates of the right lengths, succeeds, unless its settings are
  rejected for what they are. -/
  safe : ∀ w after, (setUp p).run journal = .ok w after →
    ∀ calls : List (Call ℝ), ∀ step ∈ history calls ⟨w, after⟩,
      step.before.phase = step.call.phase → step.call.Fits w.m w.n → step.fault = none ∨
        ∃ given f, step.call = .equilibrate given ∧
          step.before.settings.chosen? given = .error f ∧ step.fault = some f ∧ ¬ f.Structural

theorem validates_of_reads {p : Submission ℝ} {d : Data (DataMatrix ℝ) ℝ} {sets : List (Cone ℝ)}
    (reads : p.Reads d sets) (wellFormed : p.WellFormed)
    (small : (Cone.product sets).extent < countLimit) (journal : Journal ℝ) :
    Validates p (p.Conforms d sets) journal := by
  obtain ⟨accepts, refuses⟩ := checks_setUp reads small journal
  constructor
  case accepts =>
    intro conforms
    obtain ⟨w, after, ran, -⟩ := accepts conforms
    exact ⟨w, after, ran⟩
  case refuses => exact refuses
  case safe =>
    intro w after ran calls step h own fits
    have cones : w.cones = .product sets :=
      Except.ok.inj ((cones_setUp ran).1.symm.trans (reads.cones.toProduct? small))
    have small' : w.cones.extent < countLimit := cones ▸ small
    obtain ⟨valid, raw, sound⟩ := sound_setUp wellFormed ran small'
    have made := steps_history (r := ⟨w, after⟩) valid small' sound calls
    obtain ⟨before, moves, -⟩ := made.of_mem h
    rw [← before.m_eq, ← before.n_eq] at fits
    rcases moves.succeeds own fits with succeeds | ⟨given, f, call, rejected, fault⟩
    · exact .inl succeeds
    · exact .inr ⟨given, f, call, rejected, fault, Settings.plain_chosen? _ _ f rejected⟩

/-- The parts of `narrow`. -/
noncomputable def narrowData : Data (DataMatrix ℝ) ℝ where
  P := ⟨.double, .dense 1 #[#[1]]⟩
  A := ⟨.double, .dense 1 #[#[1], #[-1]]⟩
  q := #[1]
  b := #[0, 1]

noncomputable def narrowSets : List (Cone ℝ) :=
  [.block (.box #[-1] #[1]), .block (.nonnegative 1)]

theorem reads_narrow : narrow.Reads narrowData narrowSets where
  P := rfl
  A := rfl
  q := rfl
  b := rfl
  cones := .sequence narrowSets
  settings := ⟨_, rfl⟩
  x := by
    rintro v ⟨⟩
    exact ⟨by simp [Operand.ofVector], _, rfl⟩
  s := by simp [narrow]
  mu := by simp [narrow]

theorem validates_of_reads_narrow :
    Validates narrow (narrow.Conforms narrowData narrowSets) #[] ∧
      narrow.Conforms narrowData narrowSets := by
  refine ⟨validates_of_reads reads_narrow wellFormed_narrow (by decide) #[], ?_⟩
  exact {
    square := rfl
    q := rfl
    b := rfl
    dim := rfl
    x := by
      rintro v ⟨⟩
      exact ⟨_, rfl, rfl⟩
    s := by simp [narrow]
    mu := by simp [narrow] }

end Workspace

end ConicScaling
