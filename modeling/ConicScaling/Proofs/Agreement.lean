import ConicScaling.Focus

/-!
# Runs that agree

Two actions agree when they take related states to related states, and both succeed with related
results or both fail with the same fault. Agreement is a congruence: it is proved along the steps
of two actions of one shape.
-/
namespace ConicScaling

variable {ε σ τ σ' τ' β β' γ γ' : Type} {R : σ → τ → Prop} {S : β → β' → Prop}

/-- Whether two outcomes are related. -/
inductive Agree (R : σ → τ → Prop) (S : β → β' → Prop) :
    EStateM.Result ε σ β → EStateM.Result ε τ β' → Prop
  | ok {b : β} {b' : β'} {s : σ} {t : τ} (results : S b b') (states : R s t) :
      Agree R S (.ok b s) (.ok b' t)
  | error {e : ε} {s : σ} {t : τ} (states : R s t) : Agree R S (.error e s) (.error e t)

/-- Whether two actions take related states to related outcomes. -/
def Agrees (R : σ → τ → Prop) (S : β → β' → Prop) (x : EStateM ε σ β) (y : EStateM ε τ β') :
    Prop :=
  ∀ s t, R s t → Agree R S (x.run s) (y.run t)

theorem agrees_pure {b : β} {b' : β'} (results : S b b') :
    Agrees R S (pure b : EStateM ε σ β) (pure b') :=
  fun _ _ states => .ok results states

theorem agrees_throw (e : ε) : Agrees R S (throw e : EStateM ε σ β) (throw e) :=
  fun _ _ states => .error states

theorem agrees_bind {T : γ → γ' → Prop} {x : EStateM ε σ β} {y : EStateM ε τ β'}
    {f : β → EStateM ε σ γ} {g : β' → EStateM ε τ γ'} (first : Agrees R S x y)
    (rest : ∀ b b', S b b' → Agrees R T (f b) (g b')) : Agrees R T (x >>= f) (y >>= g) := by
  intro s t states
  have outcome := first s t states
  generalize hx : x.run s = left at outcome
  generalize hy : y.run t = right at outcome
  cases outcome with
  | ok results states =>
    rw [bind_of_ok hx rfl, bind_of_ok hy rfl]
    exact rest _ _ results _ _ states
  | error states =>
    rw [bind_of_error hx, bind_of_error hy]
    exact .error states

theorem agrees_ofExcept (x : Except ε β) :
    Agrees R Eq (MonadExcept.ofExcept x : EStateM ε σ β) (MonadExcept.ofExcept x) := by
  cases x with
  | ok b => exact fun _ _ states => .ok rfl states
  | error e => exact fun _ _ states => .error states

theorem agrees_modify {f : σ → σ} {g : τ → τ} (related : ∀ s t, R s t → R (f s) (g t)) :
    Agrees R Eq (modify f : EStateM ε σ PUnit) (modify g) :=
  fun s t states => .ok rfl (related s t states)

theorem agrees_ite {condition condition' : Prop} [Decidable condition] [Decidable condition']
    {x z : EStateM ε σ β} {y w : EStateM ε τ β'} (same : condition ↔ condition')
    (yes : condition → Agrees R S x y) (no : ¬ condition → Agrees R S z w) :
    Agrees R S (if condition then x else z) (if condition' then y else w) := by
  by_cases h : condition
  · rw [if_pos h, if_pos (same.1 h)]
    exact yes h
  · rw [if_neg h, if_neg (mt same.2 h)]
    exact no h

/-- What comes after a check only runs where it has passed. -/
theorem agrees_guard {condition condition' : Prop} [Decidable condition] [Decidable condition']
    {e : ε} {next : γ → EStateM ε σ β} {next' : γ → EStateM ε τ β'} {x : EStateM ε σ β}
    {y : EStateM ε τ β'} (same : condition ↔ condition') (rest : ¬ condition → Agrees R S x y) :
    Agrees R S (if condition then throw e >>= next else x)
      (if condition' then throw e >>= next' else y) := by
  have impossible : Agrees R (fun _ _ => False) (throw e : EStateM ε σ γ)
      (throw e : EStateM ε τ γ) := agrees_throw e
  exact agrees_ite same (fun _ => agrees_bind impossible fun _ _ h => h.elim) rest

/-- Actions on parts that are related, where the rest of the states stays as it is. -/
theorem agrees_focus {Q : σ' → τ' → Prop} {x : EStateM ε σ' β} {y : EStateM ε τ' β'}
    {part : σ → σ'} {part' : τ → τ'} {replace : σ' → σ → σ} {replace' : τ' → τ → τ}
    (h : Agrees Q S x y) (read : ∀ s t, R s t → Q (part s) (part' t))
    (write : ∀ s t p q, R s t → Q p q → R (replace p s) (replace' q t)) :
    Agrees R S (focus part replace x) (focus part' replace' y) := by
  intro s t states
  have inner := h _ _ (read s t states)
  generalize hx : x.run (part s) = left at inner
  generalize hy : y.run (part' t) = right at inner
  cases inner with
  | ok results parts =>
    rw [focus_of_ok hx, focus_of_ok hy]
    exact .ok results (write _ _ _ _ states parts)
  | error parts =>
    rw [focus_of_error hx, focus_of_error hy]
    exact .error (write _ _ _ _ states parts)

end ConicScaling
