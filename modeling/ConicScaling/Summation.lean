/-!
# Summation

Rounded sums depend on the order of addition. Values are added from left to right, or pairwise: then
long sums are halved and shorter ones kept as eight sums side by side, so that rounding errors grow
slowly. Both give the same sum where addition is associative and commutative.
-/
namespace ConicScaling

variable {β : Type}

/-- Adds each value to the sum of those before it. -/
def sumForward (add : β → β → β) (zero : β) : List β → β
  | [] => zero
  | v :: rest => rest.foldl add v

/-- Adds eight values at a time to eight sums, and returns the sums and the values left over. -/
def sumInTurn (add : β → β → β) (sums vs : List β) : List β × List β :=
  if 8 ≤ vs.length then sumInTurn add (List.zipWith add sums (vs.take 8)) (vs.drop 8)
  else (sums, vs)
termination_by vs.length
decreasing_by grind

/-- Adds neighbours two by two. -/
def sumNeighbours (add : β → β → β) : List β → List β
  | v :: w :: rest => add v w :: sumNeighbours add rest
  | rest => rest

/-- The sum of a few values: eight sums, which are then added as neighbours, and the values left
over after them. Fewer than eight values are added from left to right. -/
def sumBlock (add : β → β → β) (zero : β) (vs : List β) : β :=
  if vs.length < 8 then sumForward add zero vs
  else
    let (sums, rest) := sumInTurn add (vs.take 8) (vs.drop 8)
    let joined := sumNeighbours add (sumNeighbours add (sumNeighbours add sums))
    sumForward add zero (joined ++ rest)

/-- Halves more than 128 values, where the first half is a multiple of eight, and adds the sums. -/
def sumPairwise (add : β → β → β) (zero : β) (vs : List β) : β :=
  if vs.length ≤ 128 then sumBlock add zero vs
  else
    let half := vs.length / 2 - vs.length / 2 % 8
    add (sumPairwise add zero (vs.take half)) (sumPairwise add zero (vs.drop half))
termination_by vs.length
decreasing_by all_goals grind

/-- Adds the values after the first pairwise, and their sum to the first. -/
def sumRestFirst (add : β → β → β) (zero : β) : List β → β
  | [] => zero
  | [v] => v
  | v :: rest => add v (sumPairwise add zero rest)

section Lawful

variable (add : β → β → β) (zero : β)

theorem sumForward_eq_foldl [Std.LawfulLeftIdentity add zero] (vs : List β) :
    sumForward add zero vs = vs.foldl add zero := by
  cases vs with
  | nil => rfl
  | cons v rest => simp [sumForward, Std.LawfulLeftIdentity.left_id]

variable [Std.Associative add] [Std.LawfulIdentity add zero]

theorem foldl_cons_add (v : β) (vs : List β) :
    (v :: vs).foldl add zero = add v (vs.foldl add zero) := by
  have left : add zero v = v := Std.LawfulLeftIdentity.left_id v
  have right : add v zero = v := Std.LawfulRightIdentity.right_id v
  rw [List.foldl_cons, left, ← @List.foldl_assoc β add _ vs v zero, right]

theorem foldl_append_add (vs ws : List β) :
    (vs ++ ws).foldl add zero = add (vs.foldl add zero) (ws.foldl add zero) := by
  have right (v : β) : add v zero = v := Std.LawfulRightIdentity.right_id v
  rw [List.foldl_append, ← @List.foldl_assoc β add _ ws _ zero, right]

theorem foldl_sumNeighbours (vs : List β) :
    (sumNeighbours add vs).foldl add zero = vs.foldl add zero := by
  fun_induction sumNeighbours add vs with
  | case1 v w rest ih =>
    simp only [foldl_cons_add add zero, ih]
    ac_rfl
  | case2 => rfl

variable [Std.Commutative add]

theorem foldl_zipWith_add {vs ws : List β} (h : vs.length = ws.length) :
    (List.zipWith add vs ws).foldl add zero = add (vs.foldl add zero) (ws.foldl add zero) := by
  induction vs generalizing ws with
  | nil =>
    obtain rfl := List.length_eq_zero_iff.1 h.symm
    exact (Std.LawfulLeftIdentity.left_id zero).symm
  | cons v vs ih =>
    obtain _ | ⟨w, ws⟩ := ws
    · simp at h
    · simp only [List.zipWith_cons_cons, foldl_cons_add add zero, ih (by simpa using h)]
      ac_rfl

theorem foldl_sumInTurn {sums : List β} (h : sums.length = 8) (vs : List β) :
    add ((sumInTurn add sums vs).1.foldl add zero) ((sumInTurn add sums vs).2.foldl add zero) =
      add (sums.foldl add zero) (vs.foldl add zero) := by
  fun_induction sumInTurn add sums vs with
  | case1 sums vs long ih =>
    have cut := foldl_append_add add zero (vs.take 8) (vs.drop 8)
    rw [List.take_append_drop] at cut
    rw [ih (by simp; omega), foldl_zipWith_add add zero (by simp; omega), cut]
    ac_rfl
  | case2 => rfl

theorem sumBlock_eq_foldl (vs : List β) : sumBlock add zero vs = vs.foldl add zero := by
  unfold sumBlock
  split
  · exact sumForward_eq_foldl add zero vs
  · rename_i long
    simp only [sumForward_eq_foldl, foldl_append_add add zero, foldl_sumNeighbours]
    rw [foldl_sumInTurn add zero (by simp; omega), ← foldl_append_add add zero,
      List.take_append_drop]

/-- In exact arithmetic a pairwise sum is the sum from left to right. -/
theorem sumPairwise_eq_foldl (vs : List β) : sumPairwise add zero vs = vs.foldl add zero := by
  fun_induction sumPairwise add zero vs with
  | case1 vs short => exact sumBlock_eq_foldl add zero vs
  | case2 vs long half first second =>
    rw [first, second, ← foldl_append_add add zero, List.take_append_drop]

theorem sumRestFirst_eq_foldl (vs : List β) : sumRestFirst add zero vs = vs.foldl add zero := by
  obtain _ | ⟨v, _ | ⟨w, rest⟩⟩ := vs
  · rfl
  · simp [sumRestFirst, Std.LawfulLeftIdentity.left_id]
  · rw [foldl_cons_add add zero, ← sumPairwise_eq_foldl add zero]
    rfl

end Lawful

end ConicScaling
