/-!
# Actions on a part

An action that may fail keeps what it had changed. Run on one part of a larger state it changes
that part alone, also when it fails.
-/
namespace ConicScaling

variable {ε σ τ β : Type}

/-- Runs an action on the part of the state that `part` reads and `replace` writes. -/
def focus (part : σ → τ) (replace : τ → σ → σ) (act : EStateM ε τ β) : EStateM ε σ β := fun s =>
  match act (part s) with
  | .ok b t => .ok b (replace t s)
  | .error e t => .error e (replace t s)

variable {part : σ → τ} {replace : τ → σ → σ}

theorem focus_of_ok {act : EStateM ε τ β} {s : σ} {b : β} {t : τ}
    (h : act.run (part s) = .ok b t) : (focus part replace act).run s = .ok b (replace t s) := by
  simp only [EStateM.run] at h
  simp [EStateM.run, focus, h]

theorem focus_of_error {act : EStateM ε τ β} {s : σ} {e : ε} {t : τ}
    (h : act.run (part s) = .error e t) :
    (focus part replace act).run s = .error e (replace t s) := by
  simp only [EStateM.run] at h
  simp [EStateM.run, focus, h]

/-! ## Running actions in sequence -/

section Sequence

variable {γ : Type} {act : EStateM ε σ β} {next : β → EStateM ε σ γ} {s t : σ}

theorem bind_of_ok {b : β} {r : EStateM.Result ε σ γ} (first : act.run s = .ok b t)
    (rest : (next b).run t = r) : (act >>= next).run s = r := by
  rw [EStateM.run_bind, first]
  exact rest

theorem bind_of_error {e : ε} (h : act.run s = .error e t) :
    (act >>= next).run s = .error e t := by
  rw [EStateM.run_bind, h]

/-- A step that is only made in some cases. -/
theorem bind_of_ok_ite {condition : Prop} [Decidable condition] {act : EStateM ε σ Unit}
    {next : Unit → EStateM ε σ γ} {r : EStateM.Result ε σ γ}
    (first : (if condition then act else pure ()).run s = .ok () t)
    (rest : (next ()).run t = r) :
    (if condition then act >>= next else next ()).run s = r := by
  by_cases h : condition
  · rw [if_pos h] at first ⊢
    exact bind_of_ok first rest
  · rw [if_neg h] at first ⊢
    cases first
    exact rest

/-! ## What an action leaves -/

/-- The fault that an action ended with, if any, and the state that it left. -/
def ended : EStateM.Result ε σ β → Option ε × σ
  | .ok _ s => (none, s)
  | .error e s => (some e, s)

/-- Whether an action leaves a property alone, also when it fails. -/
def Keeps (I : σ → Prop) (act : EStateM ε σ β) : Prop := ∀ s, I s → I (ended (act.run s)).2

/-- Whether an action that starts with one property leaves another one, also when it fails. -/
def Takes (I J : σ → Prop) (act : EStateM ε σ β) : Prop := ∀ s, I s → J (ended (act.run s)).2

theorem takes_bind {I J K : σ → Prop} (first : Takes I J act) (stops : ∀ s, J s → K s)
    (rest : ∀ b, Takes J K (next b)) : Takes I K (act >>= next) := by
  intro s h
  have between := first s h
  rw [EStateM.run_bind]
  cases ran : act.run s with
  | ok b t =>
    rw [ran] at between
    exact rest b t between
  | error e t =>
    rw [ran] at between
    exact stops t between

theorem keeps_bind {I : σ → Prop} (first : Keeps I act) (rest : ∀ b, Keeps I (next b)) :
    Keeps I (act >>= next) :=
  takes_bind (I := I) (J := I) first (fun _ h => h) rest

/-- A step that is only made in some cases. -/
theorem takes_bind_ite {I J K : σ → Prop} {condition : Prop} [Decidable condition]
    {act : EStateM ε σ Unit} {next : Unit → EStateM ε σ γ} (weaker : ∀ s, I s → J s)
    (first : Takes I J act) (stops : ∀ s, J s → K s) (rest : ∀ u, Takes J K (next u)) :
    Takes I K (if condition then act >>= next else next ()) := by
  split
  · exact takes_bind first stops rest
  · exact fun s h => rest () s (weaker s h)

end Sequence

/-- An action on a part keeps what it keeps of the part. -/
theorem keeps_focus {I : σ → Prop} {J : τ → Prop} {act : EStateM ε τ β} (keeps : Keeps J act)
    (reads : ∀ s, I s → J (part s)) (writes : ∀ s t, I s → J t → I (replace t s)) :
    Keeps I (focus part replace act) := by
  intro s h
  have left := keeps (part s) (reads s h)
  cases ran : act.run (part s) with
  | ok b t =>
    rw [ran] at left
    rw [focus_of_ok ran]
    exact writes s t h left
  | error e t =>
    rw [ran] at left
    rw [focus_of_error ran]
    exact writes s t h left

theorem keeps_ofExcept {I : σ → Prop} (x : Except ε β) :
    Keeps I (MonadExcept.ofExcept x : EStateM ε σ β) := by
  cases x <;> exact fun _ h => h

theorem ofExcept_of_ok {x : Except ε β} {b : β} (h : x = .ok b) (s : σ) :
    (MonadExcept.ofExcept x : EStateM ε σ β).run s = .ok b s := by
  subst h
  rfl

theorem ofExcept_of_error {x : Except ε β} {e : ε} (h : x = .error e) (s : σ) :
    (MonadExcept.ofExcept x : EStateM ε σ β).run s = .error e s := by
  subst h
  rfl

theorem exists_of_bind_eq_ok {γ : Type} {x : Except ε β} {next : β → Except ε γ} {c : γ}
    (h : (x >>= next) = .ok c) : ∃ b, x = .ok b ∧ next b = .ok c := by
  cases x with
  | error e => cases h
  | ok b => exact ⟨b, rfl, h⟩

/-- What succeeds after a check has passed it. -/
theorem of_guard_eq_ok {γ : Type} {condition : Prop} [Decidable condition] {e : ε}
    {next : β → Except ε γ} {x : Except ε γ} {c : γ}
    (h : (if condition then throw e >>= next else x) = .ok c) : ¬ condition ∧ x = .ok c := by
  by_cases refused : condition
  · rw [if_pos refused] at h
    cases h
  · rw [if_neg refused] at h
    exact ⟨refused, h⟩

/-- A sequence that succeeds is one of steps that succeed. -/
theorem exists_of_run_bind_eq_ok {γ : Type} {act : EStateM ε σ β} {next : β → EStateM ε σ γ}
    {s u : σ} {c : γ} (h : (act >>= next).run s = .ok c u) :
    ∃ b t, act.run s = .ok b t ∧ (next b).run t = .ok c u := by
  rw [EStateM.run_bind] at h
  cases ran : act.run s with
  | ok b t =>
    rw [ran] at h
    exact ⟨b, t, rfl, h⟩
  | error e t =>
    rw [ran] at h
    cases h

theorem exists_of_run_ite_bind_eq_ok {γ : Type} {condition : Prop} [Decidable condition]
    {act : EStateM ε σ Unit} {next : Unit → EStateM ε σ γ} {s u : σ} {c : γ}
    (h : (if condition then act >>= next else next ()).run s = .ok c u) :
    ∃ t, (next ()).run t = .ok c u := by
  by_cases made : condition
  · rw [if_pos made] at h
    obtain ⟨_, t, -, ran⟩ := exists_of_run_bind_eq_ok h
    exact ⟨t, ran⟩
  · rw [if_neg made] at h
    exact ⟨s, h⟩

theorem of_run_guard_eq_ok {γ : Type} {condition : Prop} [Decidable condition] {e : ε}
    {next : β → EStateM ε σ γ} {act : EStateM ε σ γ} {s t : σ} {c : γ}
    (h : (if condition then throw e >>= next else act).run s = .ok c t) :
    ¬ condition ∧ act.run s = .ok c t := by
  by_cases refused : condition
  · rw [if_pos refused] at h
    cases h
  · rw [if_neg refused] at h
    exact ⟨refused, h⟩

/-- A check that is passed. -/
theorem run_guard_of_not {γ : Type} {condition : Prop} [Decidable condition] {e : ε}
    {next : β → EStateM ε σ γ} {act : EStateM ε σ γ} {s : σ} {r : EStateM.Result ε σ γ}
    (passed : ¬ condition) (ran : act.run s = r) :
    (if condition then throw e >>= next else act).run s = r := by
  rw [if_neg passed]
  exact ran

theorem ofExcept_eq_ok {x : Except ε β} {s t : σ} {b : β}
    (h : (MonadExcept.ofExcept x : EStateM ε σ β).run s = .ok b t) : x = .ok b ∧ t = s := by
  cases x with
  | ok c =>
    cases h
    exact ⟨rfl, rfl⟩
  | error e => cases h

/-! ## Steps that may fail -/

/-- Changes the state by a step that may fail and then changes nothing. -/
def modify? (step : σ → Except ε σ) : EStateM ε σ Unit := fun s =>
  match step s with
  | .ok t => .ok () t
  | .error e => .error e s

@[simp] theorem modify?_of_ok {step : σ → Except ε σ} {s t : σ} (h : step s = .ok t) :
    (modify? step).run s = .ok () t := by
  simp [EStateM.run, modify?, h]

@[simp] theorem modify?_of_error {step : σ → Except ε σ} {s : σ} {e : ε}
    (h : step s = .error e) : (modify? step).run s = .error e s := by
  simp [EStateM.run, modify?, h]

theorem keeps_modify? {I : σ → Prop} {step : σ → Except ε σ}
    (keeps : ∀ s t, I s → step s = .ok t → I t) : Keeps I (modify? step) := by
  intro s h
  cases taken : step s with
  | ok t =>
    rw [modify?_of_ok taken]
    exact keeps s t h taken
  | error e =>
    rw [modify?_of_error taken]
    exact h

end ConicScaling
