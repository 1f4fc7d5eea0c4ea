import ConicScaling.Proofs.SetUp

/-!
# Checks

Where what is handed over can be read at all, taking it in fails for a single reason: its size is
not the one that is asked for. An action that checks succeeds exactly if a condition holds, and
actions that check one after the other check all their conditions.
-/
namespace ConicScaling

open Procedure

variable {α β γ σ τ : Type}

/-! ## Actions that check -/

/-- Whether an action succeeds exactly if a condition holds, with a result as it is told, and
otherwise fails because of a value that is not acceptable. -/
def Checks (condition : Prop) (yields : β → Prop) (act : EStateM (Fault α) σ β) : Prop :=
  ∀ s, (condition → ∃ b t, act.run s = .ok b t ∧ yields b) ∧
    (¬ condition → ∃ f t, act.run s = .error f t ∧ f.kind = .value)

section Checks

variable {p q : Prop} {yields : β → Prop} {results : γ → Prop}

theorem Checks.congr {act : EStateM (Fault α) σ β} (h : Checks p yields act) (same : p ↔ q) :
    Checks q yields act := by
  rwa [← same]

theorem checks_pure {b : β} (result : yields b) :
    Checks True yields (pure b : EStateM (Fault α) σ β) :=
  fun s => ⟨fun _ => ⟨b, s, rfl, result⟩, fun impossible => absurd trivial impossible⟩

theorem checks_bind {act : EStateM (Fault α) σ β} {next : β → EStateM (Fault α) σ γ}
    (first : Checks p yields act) (rest : ∀ b, yields b → Checks q results (next b)) :
    Checks (p ∧ q) results (act >>= next) := by
  intro s
  by_cases passed : p
  · obtain ⟨b, t, ran, result⟩ := (first s).1 passed
    obtain ⟨accepts, refuses⟩ := rest b result t
    refine ⟨fun both => ?_, fun neither => ?_⟩
    · obtain ⟨c, u, ran', result'⟩ := accepts both.2
      exact ⟨c, u, bind_of_ok ran ran', result'⟩
    · obtain ⟨f, u, ran', kind⟩ := refuses fun h => neither ⟨passed, h⟩
      exact ⟨f, u, bind_of_ok ran ran', kind⟩
  · obtain ⟨f, t, ran, kind⟩ := (first s).2 passed
    exact ⟨fun both => absurd both.1 passed, fun _ => ⟨f, t, bind_of_error ran, kind⟩⟩

theorem checks_guard {refused : Prop} [Decidable refused] {f : Fault α} (kind : f.kind = .value)
    {next : β → EStateM (Fault α) σ γ} {act : EStateM (Fault α) σ γ}
    (rest : Checks q results act) :
    Checks (¬ refused ∧ q) results (if refused then throw f >>= next else act) := by
  intro s
  by_cases h : refused
  · rw [if_pos h]
    exact ⟨fun both => absurd h both.1, fun _ => ⟨f, s, rfl, kind⟩⟩
  · rw [if_neg h]
    simpa only [h, not_false_eq_true, true_and] using rest s

theorem checks_ofExcept {x : Except (Fault α) β} {b : β} (h : x = .ok b) :
    Checks True (· = b) (MonadExcept.ofExcept x : EStateM (Fault α) σ β) := by
  subst h
  exact checks_pure rfl

theorem checks_focus {part : σ → τ} {replace : τ → σ → σ} {act : EStateM (Fault α) τ β}
    (h : Checks p yields act) : Checks p yields (focus part replace act) := by
  intro s
  obtain ⟨accepts, refuses⟩ := h (part s)
  refine ⟨fun passed => ?_, fun failed => ?_⟩
  · obtain ⟨b, t, ran, result⟩ := accepts passed
    exact ⟨b, _, focus_of_ok ran, result⟩
  · obtain ⟨f, t, ran, kind⟩ := refuses failed
    exact ⟨f, _, focus_of_error ran, kind⟩

end Checks

variable [Scalar α]

/-! ## Operands -/

/-- Whether an operand is read as a vector. -/
def Operand.IsVector (v : Operand α) : Prop := v ≠ .value .null ∧ ∃ a, v.entries? = .ok a

/-- Whether an operand is read as a vector of `n` entries. -/
def Operand.Lists (n : Nat) (v : Operand α) : Prop := ∃ a, v.entries? = .ok a ∧ a.size = n

theorem Operand.Lists.readable {n : Nat} {v : Operand α} (h : v.Lists n) :
    ∃ a, v.entries? = .ok a := by
  obtain ⟨a, read, -⟩ := h
  exact ⟨a, read⟩

/-- No vector is missing. -/
theorem lists_of_given_iff {v : Option (Operand α)} (vector : ∀ u ∈ v, u.IsVector) (n : Nat) :
    (∀ u ∈ v, u ≠ .value .null → u.Lists n) ↔ ∀ u ∈ v, u.Lists n :=
  forall₂_congr fun u h => ⟨fun lists => lists (vector u h).1, fun lists _ => lists⟩

omit [Scalar α] in
theorem checks_record (e : Event α) : Checks True (fun _ => True) (record e) :=
  fun journal => ⟨fun _ => ⟨(), journal.push e, rfl, trivial⟩, fun impossible =>
    absurd trivial impossible⟩

theorem Operand.checks_intakeMatrix (input : Input) (p : Precision) (S : Storage α) :
    Checks True (fun N : DataMatrix α => N.storage.shape = S.shape)
      ((Operand.stored (.real p S)).intakeMatrix input) := by
  unfold intakeMatrix Numbers.intake
  dsimp only
  split
  · refine (checks_bind (checks_record _) fun _ _ => ?_).congr and_self_iff
    exact checks_pure rfl
  · exact checks_pure (by simp [DataMatrix.canonical, Storage.canonical, Storage.shape])

theorem Operand.run_intakeVector {v : Operand α} {a : Array α} (read : v.entries? = .ok a)
    (input : Input) (n : Nat) (journal : Journal α) :
    ∃ after, (v.intakeVector input n).run journal =
      if a.size = n then .ok a after else .error (.vectorLength input a.size n) after := by
  have checked (t : Journal α) :
      (do let entries ← MonadExcept.ofExcept v.entries?
          if entries.size = n then return entries
          else throw (.vectorLength input entries.size n) : Logged α (Array α)).run t =
        if a.size = n then .ok a t else .error (.vectorLength input a.size n) t := by
    refine bind_of_ok (ofExcept_of_ok read t) ?_
    split <;> rfl
  unfold intakeVector
  split
  · exact ⟨_, bind_of_ok rfl (checked _)⟩
  · exact ⟨_, checked _⟩

theorem Operand.checks_intakeVector {v : Operand α} {a : Array α} (read : v.entries? = .ok a)
    (input : Input) (n : Nat) : Checks (a.size = n) (· = a) (v.intakeVector input n) := by
  intro journal
  obtain ⟨after, ran⟩ := v.run_intakeVector read input n journal
  rw [ran]
  refine ⟨fun same => ?_, fun other => ?_⟩
  · exact ⟨a, after, if_pos same, rfl⟩
  · exact ⟨_, after, if_neg other, rfl⟩

/-! ## Iterates -/

namespace Workspace

/-- An iterate is stored if it is missing or has the right length. -/
theorem checks_startIterate {v : Option (Operand α)} (readable : ∀ u ∈ v, ∃ a, u.entries? = .ok a)
    (input : Input) (k : Nat) (store : Array α → Iterates α → Iterates α) :
    Checks (∀ u ∈ v, u ≠ .value .null → u.Lists k) (fun _ => True)
      (startIterate input k store v) := by
  unfold startIterate
  split
  · exact (checks_pure trivial).congr (by simp)
  · exact (checks_pure trivial).congr (by simp)
  · rename_i u given
    obtain ⟨a, read⟩ := readable u rfl
    have given : u ≠ .value .null := given
    have lists : a.size = k ↔ ∀ w ∈ some u, w ≠ .value .null → w.Lists k := by
      simp [Operand.Lists, given, read]
    have stored : Checks True (fun _ => True) (onIterates (modify (store a))) :=
      fun r => ⟨fun _ => ⟨(), _, rfl, trivial⟩, fun impossible => absurd trivial impossible⟩
    refine (checks_bind (checks_focus (Operand.checks_intakeVector read input k)) ?_).congr
      ((and_iff_left trivial).trans lists)
    rintro _ rfl
    exact stored

theorem checks_storeIterates {x s mu : Option (Operand α)}
    (readablex : ∀ u ∈ x, ∃ a, u.entries? = .ok a) (readables : ∀ u ∈ s, ∃ a, u.entries? = .ok a)
    (readablemu : ∀ u ∈ mu, ∃ a, u.entries? = .ok a) (m n : Nat) :
    Checks ((∀ u ∈ x, u ≠ .value .null → u.Lists n) ∧ (∀ u ∈ s, u ≠ .value .null → u.Lists m) ∧
      ∀ u ∈ mu, u ≠ .value .null → u.Lists m) (fun _ => True) (storeIterates m n x s mu) :=
  checks_bind (checks_startIterate readablex .x n _) fun _ _ =>
    checks_bind (checks_startIterate readables .s m _) fun _ _ =>
      checks_startIterate readablemu .mu m _

end Workspace

end ConicScaling
