import ConicScaling.Proofs.Checks
import ConicScaling.Scalar.Double

/-!
# Warm starts that fail

A warm start that fails should leave the iterates as they were. It converts and stores them one
after the other, so those that are given before the one that is refused have been stored.
-/
namespace ConicScaling

open Procedure

theorem ended_eq_some {ε σ β : Type} {result : EStateM.Result ε σ β} {e : ε} {t : σ} :
    ended result = (some e, t) ↔ result = .error e t := by
  cases result <;> simp [ended]

variable {α : Type}

/-! ## Iterates before and after -/

/-- The iterates that a warm start is to store, or why it refuses them. One that is not given is the
old one. -/
structure Renewal (α : Type) where
  x : Except (Fault α) (Array α)
  s : Except (Fault α) (Array α)
  mu : Except (Fault α) (Array α)

namespace Renewal

/-- The fault that is met, if any, and the iterates as they are left. -/
def outcome (i : Iterates α) (given : Renewal α) : Option (Fault α) × Iterates α :=
  match given.x with
  | .error f => (some f, i)
  | .ok x =>
    match given.s with
    | .error f => (some f, { i with x })
    | .ok s =>
      match given.mu with
      | .error f => (some f, { i with x, s })
      | .ok mu => (none, ⟨x, s, mu⟩)

/-- Whether nothing new comes before an iterate that is refused. -/
structure Untorn (i : Iterates α) (given : Renewal α) : Prop where
  x : ∀ x f, given.x = .ok x → given.s = .error f ∨ given.mu = .error f → x = i.x
  s : ∀ x s f, given.x = .ok x → given.s = .ok s → given.mu = .error f → s = i.s

/-- Iterates stay in spite of a fault exactly if nothing new comes before it. -/
theorem outcome_keeps_iff (i : Iterates α) (given : Renewal α) :
    (∀ f j, given.outcome i = (some f, j) → j = i) ↔ given.Untorn i := by
  obtain ⟨x, s, mu⟩ := given
  constructor
  · intro stays
    refine ⟨?_, ?_⟩
    · rintro x f rfl (rfl | rfl)
      · exact congrArg Iterates.x (stays f { i with x } rfl)
      · cases s with
        | error g => exact congrArg Iterates.x (stays g { i with x } rfl)
        | ok s => exact congrArg Iterates.x (stays f { i with x, s } rfl)
    · rintro x s f rfl rfl rfl
      exact congrArg Iterates.s (stays f { i with x, s } rfl)
  · rintro ⟨samex, sames⟩ f j left
    rcases x with _ | x
    · cases left
      rfl
    rcases s with _ | s
    · cases left
      rw [samex x f rfl (.inl rfl)]
    rcases mu with _ | mu
    · cases left
      rw [samex x f rfl (.inr rfl), sames x s f rfl rfl rfl]
    · cases left

end Renewal

variable [Scalar α]

/-- The vector of `n` entries that an operand is read as. -/
def Operand.listed? (input : Input) (n : Nat) (v : Operand α) : Except (Fault α) (Array α) :=
  match v.entries? with
  | .error f => .error f
  | .ok a => if a.size = n then .ok a else .error (.vectorLength input a.size n)

theorem Operand.run_intakeVector_eq (input : Input) (n : Nat) (v : Operand α)
    (journal : Journal α) :
    ∃ after, (v.intakeVector input n).run journal =
      match v.listed? input n with
      | .ok a => .ok a after
      | .error f => .error f after := by
  cases read : v.entries? with
  | error f =>
    simp only [listed?, read]
    unfold intakeVector
    split
    · exact ⟨_, bind_of_ok rfl (bind_of_error (ofExcept_of_error read _))⟩
    · exact ⟨_, bind_of_error (ofExcept_of_error read _)⟩
  | ok a =>
    obtain ⟨after, ran⟩ := v.run_intakeVector read input n journal
    refine ⟨after, ?_⟩
    by_cases length : a.size = n
    · simpa only [listed?, read, length, if_true] using ran
    · simpa only [listed?, read, length, if_false] using ran

namespace Workspace

/-- An iterate of `n` entries after a warm start: the one that is given, or else the old one. -/
def next? (input : Input) (n : Nat) (old : Array α) :
    Option (Operand α) → Except (Fault α) (Array α)
  | none | some (.value .null) => .ok old
  | some v => v.listed? input n

theorem next?_of_given {v : Operand α} (given : v ≠ .value .null) (input : Input) (n : Nat)
    (old : Array α) : next? input n old (some v) = v.listed? input n := by
  unfold next?
  split
  · contradiction
  · rename_i absent
    cases absent
    exact absurd rfl given
  · rename_i same
    cases same
    rfl

def renewal (w : Workspace α) (x s mu : Option (Operand α)) : Renewal α where
  x := next? .x w.n w.iterates.x x
  s := next? .s w.m w.iterates.s s
  mu := next? .mu w.m w.iterates.mu mu

/-! ## Runs -/

section Runs

variable (part : Iterates α → Array α) (store : Array α → Iterates α → Iterates α)

/-- An iterate that is not given is stored again. -/
theorem run_startIterate (stored : ∀ i, store (part i) i = i) (input : Input) (n : Nat)
    (v : Option (Operand α)) (r : Run α) :
    ∃ journal, (startIterate input n store v).run r =
      match next? input n (part r.workspace.iterates) v with
      | .error f => .error f { r with journal }
      | .ok a => .ok ()
          ⟨{ r.workspace with iterates := store a r.workspace.iterates }, journal⟩ := by
  have again : r = ⟨{ r.workspace with
      iterates := store (part r.workspace.iterates) r.workspace.iterates }, r.journal⟩ := by
    rw [stored]
  unfold startIterate
  split
  · exact ⟨r.journal, congrArg (EStateM.Result.ok ()) again⟩
  · exact ⟨r.journal, congrArg (EStateM.Result.ok ()) again⟩
  · rename_i v given
    obtain ⟨journal, ran⟩ := v.run_intakeVector_eq input n r.journal
    refine ⟨journal, ?_⟩
    rw [next?_of_given given]
    cases read : v.listed? input n with
    | error f =>
      rw [read] at ran
      exact bind_of_error (focus_of_error ran)
    | ok a =>
      rw [read] at ran
      exact bind_of_ok (focus_of_ok ran) rfl

end Runs

/-- A warm start comes to the outcome of the iterates in their order. -/
theorem ended_warmStart {r : Run α} (raw : r.workspace.phase = .raw)
    (x s mu : Option (Operand α)) :
    ∃ journal, ended ((warmStart x s mu).run r) =
      let (fault, iterates) := (r.workspace.renewal x s mu).outcome r.workspace.iterates
      (fault, ⟨{ r.workspace with iterates }, journal⟩) := by
  rw [run_warmStart_of_raw raw, storeIterates, renewal, Renewal.outcome]
  obtain ⟨journal, ran⟩ := run_startIterate Iterates.x (fun x i => { i with x }) (fun _ => rfl) .x
    r.workspace.n x r
  cases nextx : next? .x r.workspace.n r.workspace.iterates.x x with
  | error f =>
    rw [nextx] at ran
    exact ⟨journal, congrArg ended (bind_of_error ran)⟩
  | ok x =>
    rw [nextx] at ran
    simp only [bind_of_ok ran rfl]
    obtain ⟨journal, ran⟩ := run_startIterate Iterates.s (fun s i => { i with s }) (fun _ => rfl)
      .s r.workspace.m s ⟨{ r.workspace with iterates.x := x }, journal⟩
    cases nexts : next? .s r.workspace.m r.workspace.iterates.s s with
    | error f =>
      rw [nexts] at ran
      exact ⟨journal, congrArg ended (bind_of_error ran)⟩
    | ok s =>
      rw [nexts] at ran
      simp only [bind_of_ok ran rfl]
      obtain ⟨journal, ran⟩ := run_startIterate Iterates.mu (fun mu i => { i with mu })
        (fun _ => rfl) .mu r.workspace.m mu
        ⟨{ r.workspace with iterates.x := x, iterates.s := s }, journal⟩
      refine ⟨journal, (congrArg ended ran).trans ?_⟩
      cases next? .mu r.workspace.m r.workspace.iterates.mu mu <;> rfl

/-! ## Faults -/

/-- Whether an action that fails leaves the iterates as they were. -/
def KeepsIterates (act : Procedure α Unit) (r : Run α) : Prop :=
  ∀ f t, act.run r = .error f t → t.workspace.iterates = r.workspace.iterates

/-- A warm start that fails leaves the iterates as they were exactly if it comes too late or
nothing new is given before the iterate that is refused. -/
theorem keepsIterates_warmStart_iff (r : Run α) (x s mu : Option (Operand α)) :
    KeepsIterates (warmStart x s mu) r ↔
      (r.workspace.phase = .raw → (r.workspace.renewal x s mu).Untorn r.workspace.iterates) := by
  by_cases raw : r.workspace.phase = .raw
  · obtain ⟨journal, left⟩ := ended_warmStart raw x s mu
    rw [← Renewal.outcome_keeps_iff, KeepsIterates, forall_prop_of_true raw]
    constructor
    · intro keeps f i outcome
      rw [outcome] at left
      exact keeps f _ (ended_eq_some.1 left)
    · intro stays f t ran
      rcases outcome : (r.workspace.renewal x s mu).outcome r.workspace.iterates with ⟨fault, i⟩
      rw [ran, outcome] at left
      cases left
      exact stays f i outcome
  · rw [KeepsIterates, run_warmStart_of_not_raw raw]
    refine iff_of_true ?_ fun h => absurd h raw
    rintro _ _ ⟨⟩
    rfl

/-! ## A fault between two iterates -/

/-- One variable and one row, with zero iterates. -/
def single : Workspace Float :=
  fresh ⟨⟨.double, .dense 1 #[#[1.0]]⟩, ⟨.double, .dense 1 #[#[1.0]]⟩, #[0.0], #[1.0]⟩
    (.product [.block (.nonnegative 1)]) .standard

theorem valid_single : single.Valid := by
  refine valid_fresh ?_ (Cone.dim_eq_extent (c := single.cones) (by decide)) ?_ _
  · constructor <;> first | rfl | simp [Storage.WellFormed]
  · intro b hb
    rw [List.mem_singleton.1 hb]
    trivial

/-- A new `x` is stored before an `s` with one entry too many is refused. -/
theorem not_keepsIterates_single :
    single.Valid ∧ single.phase = .raw ∧
      ¬ KeepsIterates
        (warmStart (some (.value (.list [.real 5.0])))
          (some (.value (.list [.real 1.0, .real 2.0]))) none) ⟨single, #[]⟩ := by
  refine ⟨valid_single, rfl, ?_⟩
  intro keeps
  have kept : #[5.0] = single.iterates.x := congrArg Iterates.x (keeps _ _ rfl)
  exact absurd kept (by decide)

end Workspace

end ConicScaling
