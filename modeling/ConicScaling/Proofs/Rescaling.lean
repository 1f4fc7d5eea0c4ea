import ConicScaling.Proofs.Placement

/-!
# Scaling the boxes

Scaling by the factors of the rows multiplies the bounds of every box by the factors of its own
rows. It fails only where a box gets neither as many rows as it has bounds nor a single row, which
cannot happen while row counts do not wrap.
-/
namespace ConicScaling

variable {α : Type}

namespace Block

/-- Whether a box has as many upper bounds as lower ones. -/
def Balanced : Block α → Prop
  | box lower upper => upper.size = lower.size
  | _ => True

/-- Whether the factors of `n` rows can scale this set: a box needs one for each of its bounds, or
a single one for all. -/
def Fits (n : Nat) : Block α → Prop
  | box lower _ => n = lower.size ∨ n = 1
  | _ => True

theorem fits_dim (b : Block α) : b.Fits b.dim := by
  cases b with
  | box lower upper => exact .inl rfl
  | _ => trivial

/-- Blocks one after the other, each with its first row. -/
def placed (start : Nat) : List (Block α) → List (Nat × Block α)
  | [] => []
  | b :: bs => (start, b) :: placed (start + b.dim) bs

@[simp] theorem map_snd_placed (start : Nat) (bs : List (Block α)) :
    (placed start bs).map Prod.snd = bs := by
  induction bs generalizing start with
  | nil => rfl
  | cons b bs ih => simp [placed, ih]

theorem placed_append (start : Nat) (bs cs : List (Block α)) :
    placed start (bs ++ cs) = placed start bs ++ placed (start + (bs.map dim).sum) cs := by
  induction bs generalizing start with
  | nil => rfl
  | cons b bs ih => simp [placed, ih, Nat.add_assoc]

variable [Scalar α]

/-- The block with its bounds, if it is a box, multiplied by the factors of its rows. -/
def scaled (e : Array α) : Block α → Block α
  | box lower upper => box (Diagonal.times e lower) (Diagonal.times e upper)
  | b => b

theorem dim_scaled {e : Array α} {b : Block α} (h : e.size = b.dim) : (b.scaled e).dim = b.dim := by
  cases b with
  | box lower upper => exact Diagonal.size_times h
  | _ => rfl

/-- The block scaled by factors of which a single one stands for all. -/
def rescaled (e : Array α) (b : Block α) : Block α := b.scaled (Diagonal.expand b.dim e)

/-- With a factor for every row no factor is repeated. -/
theorem rescaled_of_size {e : Array α} {b : Block α} (h : e.size = b.dim) :
    b.rescaled e = b.scaled e := by
  rw [rescaled, Diagonal.expand_of_size h]

theorem rescale?_of_fits {e : Array α} {b : Block α} (h : b.Fits e.size) :
    b.rescale? e = .ok (b.rescaled e) := by
  cases b with
  | box lower upper => exact if_pos (Diagonal.size_expand_iff.2 h)
  | _ => rfl

theorem rescale?_of_not_fits {e : Array α} {b : Block α} (h : ¬ b.Fits e.size) :
    b.rescale? e = .error .lengthMismatch := by
  cases b with
  | box lower upper => exact if_neg fun same => h (Diagonal.size_expand_iff.1 same)
  | _ => exact absurd trivial h

theorem dim_rescaled {e : Array α} {b : Block α} (h : b.Fits e.size) :
    (b.rescaled e).dim = b.dim := by
  cases b with
  | box lower upper => exact Diagonal.size_times (Diagonal.size_expand_iff.2 h)
  | _ => rfl

theorem fits_rescaled {e : Array α} {b : Block α} {n : Nat} (h : b.Fits e.size) :
    (b.rescaled e).Fits n ↔ b.Fits n := by
  cases b with
  | box lower upper =>
    have same : (Diagonal.times (Diagonal.expand lower.size e) lower).size = lower.size :=
      Diagonal.size_times (Diagonal.size_expand_iff.2 h)
    simp only [rescaled, scaled, dim, Fits, same]
  | _ => rfl

/-- Blocks one after the other from a first row on, each scaled by the factors of its rows. -/
def scaledFrom (e : Array α) (start : Nat) : List (Block α) → List (Block α)
  | [] => []
  | b :: bs => b.scaled (e.extract start (start + b.dim)) :: scaledFrom e (start + b.dim) bs

theorem scaledFrom_append (e : Array α) (start : Nat) (bs cs : List (Block α)) :
    scaledFrom e start (bs ++ cs) =
      scaledFrom e start bs ++ scaledFrom e (start + (bs.map dim).sum) cs := by
  induction bs generalizing start with
  | nil => rfl
  | cons b bs ih => simp [scaledFrom, ih, Nat.add_assoc]

/-- Within a range, rows are counted from where the range starts. -/
theorem scaledFrom_extract (e : Array α) (low high start : Nat) (bs : List (Block α))
    (within : low + start + (bs.map dim).sum ≤ high) :
    scaledFrom (e.extract low high) start bs = scaledFrom e (low + start) bs := by
  induction bs generalizing start with
  | nil => rfl
  | cons b bs ih =>
    simp only [List.map_cons, List.sum_cons] at within
    simp only [scaledFrom, Array.extract_extract]
    rw [ih (start + b.dim) (by omega), Nat.min_eq_left (by omega), Nat.add_assoc low]

/-- Factors and their inverses cancel. -/
theorem scaled_scaled_map {e : Array α} {b : Block α} (balanced : b.Balanced)
    (size : b.kind = .box → e.size = b.dim) {f : α → α}
    (cancel : ∀ x ∈ e, ∀ v, v * x * f x = v) : (b.scaled e).scaled (e.map f) = b := by
  cases b with
  | box lower upper =>
    have restore {v : Array α} (size : v.size = e.size) :
        Diagonal.times (e.map f) (Diagonal.times e v) = v := by
      apply Array.ext
      · simp [Diagonal.times, size]
      · intro i _ _
        simp [Diagonal.times, cancel]
    have size : e.size = lower.size := size rfl
    simp [scaled, restore size.symm, restore (balanced.trans size.symm)]
  | _ => rfl

theorem rescaled_rescaled_map {e : Array α} {b : Block α} (balanced : b.Balanced)
    (fits : b.Fits e.size) {f : α → α} (cancel : ∀ x ∈ e, ∀ v, v * x * f x = v) :
    (b.rescaled e).rescaled (e.map f) = b := by
  rw [rescaled, dim_rescaled fits, Diagonal.expand_map, rescaled]
  refine scaled_scaled_map balanced (fun kind => ?_) fun x hx =>
    cancel x (Diagonal.mem_of_mem_expand hx)
  cases b with
  | box lower upper => exact Diagonal.size_expand_iff.2 fits
  | _ => cases kind

theorem dim_scaled_extract {e : Array α} {start : Nat} {b : Block α}
    (within : start + b.dim ≤ e.size) :
    (b.scaled (e.extract start (start + b.dim))).dim = b.dim := by
  have size : (e.extract start (start + b.dim)).size = b.dim := by
    simp only [Array.size_extract]
    omega
  exact dim_scaled size

theorem map_dim_scaledFrom (e : Array α) (start : Nat) (bs : List (Block α))
    (within : start + (bs.map dim).sum ≤ e.size) :
    (scaledFrom e start bs).map dim = bs.map dim := by
  induction bs generalizing start with
  | nil => rfl
  | cons b bs ih =>
    simp only [List.map_cons, List.sum_cons] at within
    simp only [scaledFrom, List.map_cons, ih (start + b.dim) (by omega),
      dim_scaled_extract (show start + b.dim ≤ e.size by omega)]

theorem placed_scaledFrom (e : Array α) (start : Nat) (bs : List (Block α))
    (within : start + (bs.map dim).sum ≤ e.size) :
    placed start (scaledFrom e start bs) =
      (placed start bs).map fun (i, b) => (i, b.scaled (e.extract i (i + b.dim))) := by
  induction bs generalizing start with
  | nil => rfl
  | cons b bs ih =>
    simp only [List.map_cons, List.sum_cons] at within
    simp only [scaledFrom, placed, dim_scaled_extract (show start + b.dim ≤ e.size by omega),
      List.map_cons, ih (start + b.dim) (by omega)]

end Block

namespace Cone

/-- The elementary sets, each with its first row. -/
def placed (c : Cone α) : List (Nat × Block α) := Block.placed 0 c.leaves

/-- Whether every box has as many upper bounds as lower ones. -/
def Balanced (c : Cone α) : Prop := ∀ b ∈ c.leaves, b.Balanced

mutual

/-- Whether each box gets, of `n` rows, one for each of its bounds, or a single one. -/
def Fits (n : Nat) : Cone α → Prop
  | block b => b.Fits n
  | product members => FitMembers n members (rows members)

def FitMembers (n : Nat) : List (Cone α) → List RowRange → Prop
  | c :: cs, rows :: rest => c.Fits (rows.count n) ∧ FitMembers n cs rest
  | _, _ => True

end

theorem balanced_product {members : List (Cone α)} :
    (product members).Balanced ↔ ∀ c ∈ members, c.Balanced := by
  simp only [Balanced, leaves, leavesOf_eq_flatMap, List.mem_flatMap]
  constructor
  · intro h c hc b hb
    exact h b ⟨c, hc, hb⟩
  · rintro h b ⟨c, hc, hb⟩
    exact h c hc b hb

theorem fitMembers_consecutive {n : Nat} (small : n < countLimit) (start : Nat)
    (members : List (Cone α)) (within : start + (members.map extent).sum ≤ n)
    (fits : ∀ c ∈ members, c.Fits c.extent) :
    FitMembers n members (RowRange.consecutive (Int64.ofNat start)
      ((members.map extent).map Int64.ofNat)) := by
  induction members generalizing start with
  | nil => trivial
  | cons c cs ih =>
    simp only [List.map_cons, List.sum_cons] at within
    rw [List.map_cons, RowRange.consecutive_ofNat]
    refine ⟨?_, ih _ (by omega) fun d hd => fits d (by simp [hd])⟩
    rw [RowRange.count_between (by omega) (by omega) small]
    simpa using fits c (by simp)

/-- While row counts do not wrap, every box gets the rows it has bounds for. -/
theorem fits_extent {c : Cone α} (small : c.extent < countLimit) : c.Fits c.extent := by
  induction c using induction with
  | block b => simpa [Fits] using b.fits_dim
  | product members ih =>
    rw [Fits, rows_eq_consecutive small]
    have within : 0 + (members.map extent).sum ≤ (product members).extent := by
      rw [extent_product]
      omega
    apply fitMembers_consecutive small 0 members within
    intro c hc
    exact ih c hc (Nat.lt_of_le_of_lt (extent_le_of_mem hc) small)

variable [Scalar α]

mutual

/-- The set with the bounds of its boxes multiplied by the factors of their rows. A box that gets a
single row has all its bounds multiplied by the factor of that row. -/
def scaled (e : Array α) : Cone α → Cone α
  | block b => block (b.rescaled e)
  | product members => product (scaledMembers e members (rows members))

def scaledMembers (e : Array α) : List (Cone α) → List RowRange → List (Cone α)
  | c :: cs, rows :: rest => c.scaled (rows.read e) :: scaledMembers e cs rest
  | cs, _ => cs

end

theorem rescaleMembers_of_fits (e : Array α) (members : List (Cone α)) (rows : List RowRange)
    (fits : FitMembers e.size members rows)
    (each : ∀ c ∈ members, ∀ e : Array α, c.Fits e.size → c.rescale e = (c.scaled e, none)) :
    rescaleMembers e members rows = (scaledMembers e members rows, none) := by
  induction members generalizing rows with
  | nil => cases rows <;> rfl
  | cons c cs ih =>
    cases rows with
    | nil => rfl
    | cons r rest =>
      obtain ⟨first, fits⟩ := fits
      have head := each c (by simp) (r.read e) (by rwa [RowRange.size_read_eq_count])
      have tail := ih rest fits fun d hd => each d (by simp [hd])
      simp [rescaleMembers, scaledMembers, head, tail]

/-- Where the rows of every box fit, all boxes are scaled. -/
theorem rescale_of_fits {c : Cone α} {e : Array α} (h : c.Fits e.size) :
    c.rescale e = (c.scaled e, none) := by
  induction c using induction generalizing e with
  | block b => simp [rescale, scaled, Block.rescale?_of_fits h]
  | product members ih =>
    have all := rescaleMembers_of_fits e members (rows members) h fun c hc e => ih c hc
    simp [rescale, scaled, all]

/-- The counts of the two large sets wrap, so that a box of two bounds gets the only row. -/
example (e l₁ l₂ u₁ u₂ : α) :
    (product [block (.box #[l₁, l₂] #[u₁, u₂]), block (.zero (countLimit - 1)),
      block (.zero (countLimit - 1)), block (.zero 1)]).rescale #[e] =
    (product [block (.box #[l₁ * e, l₂ * e] #[u₁ * e, u₂ * e]), block (.zero (countLimit - 1)),
      block (.zero (countLimit - 1)), block (.zero 1)], none) := by
  cbv

theorem rescaleMembers_of_not_fits (e : Array α) (members : List (Cone α)) (rows : List RowRange)
    (misfit : ¬ FitMembers e.size members rows)
    (each : ∀ c ∈ members, ∀ e : Array α, ¬ c.Fits e.size →
      (c.rescale e).2 = some .lengthMismatch) :
    (rescaleMembers e members rows).2 = some .lengthMismatch := by
  induction members generalizing rows with
  | nil => exact absurd (by cases rows <;> trivial) misfit
  | cons c cs ih =>
    cases rows with
    | nil => exact absurd trivial misfit
    | cons r rest =>
      by_cases first : c.Fits (r.count e.size)
      · have later : ¬ FitMembers e.size cs rest := fun fits => misfit ⟨first, fits⟩
        have head := rescale_of_fits (by rwa [RowRange.size_read_eq_count] : c.Fits (r.read e).size)
        have tail := ih rest later fun d hd => each d (by simp [hd])
        simp [rescaleMembers, head, tail]
      · rw [← RowRange.size_read_eq_count] at first
        have head := each c (by simp) (r.read e) first
        have pair : c.rescale (r.read e) = ((c.rescale (r.read e)).1, some .lengthMismatch) :=
          Prod.ext rfl head
        rw [rescaleMembers, pair]

/-- Where the rows of some box do not fit, scaling stops there. -/
theorem rescale_of_not_fits {c : Cone α} {e : Array α} (h : ¬ c.Fits e.size) :
    (c.rescale e).2 = some .lengthMismatch := by
  induction c using induction generalizing e with
  | block b => simp [rescale, Block.rescale?_of_not_fits h]
  | product members ih =>
    rw [rescale]
    exact rescaleMembers_of_not_fits e members _ h fun c hc e => ih c hc

/-! ## Scaling keeps the shape of a set -/

theorem dims_scaledMembers {e : Array α} (members : List (Cone α)) (rows : List RowRange)
    (fits : FitMembers e.size members rows)
    (each : ∀ c ∈ members, ∀ e : Array α, c.Fits e.size → (c.scaled e).dim = c.dim) :
    dims (scaledMembers e members rows) = dims members := by
  induction members generalizing rows with
  | nil => cases rows <;> rfl
  | cons c cs ih =>
    cases rows with
    | nil => rfl
    | cons r rest =>
      obtain ⟨first, fits⟩ := fits
      have head := each c (by simp) (r.read e) (by rwa [RowRange.size_read_eq_count])
      have tail := ih rest fits fun d hd => each d (by simp [hd])
      simp [scaledMembers, dims, head, tail]

theorem dim_scaled {c : Cone α} {e : Array α} (h : c.Fits e.size) : (c.scaled e).dim = c.dim := by
  induction c using induction generalizing e with
  | block b => exact Block.dim_rescaled h
  | product members ih =>
    have same := dims_scaledMembers members (rows members) h fun c hc e => ih c hc
    simp only [scaled, dim, same]

theorem rows_scaledMembers {e : Array α} {members : List (Cone α)}
    (fits : FitMembers e.size members (rows members)) :
    rows (scaledMembers e members (rows members)) = rows members := by
  have same := dims_scaledMembers members _ fits fun c _ e => dim_scaled
  rw [rows, same, rows]

theorem fitMembers_scaledMembers {e : Array α} (members : List (Cone α)) (rows : List RowRange)
    (fits : FitMembers e.size members rows)
    (each : ∀ c ∈ members, ∀ e : Array α, c.Fits e.size → (c.scaled e).Fits e.size) :
    FitMembers e.size (scaledMembers e members rows) rows := by
  induction members generalizing rows with
  | nil => cases rows <;> trivial
  | cons c cs ih =>
    cases rows with
    | nil => trivial
    | cons r rest =>
      obtain ⟨first, fits⟩ := fits
      rw [← RowRange.size_read_eq_count] at first
      have head := each c (by simp) _ first
      rw [RowRange.size_read_eq_count] at head
      exact ⟨head, ih rest fits fun d hd => each d (by simp [hd])⟩

theorem fits_scaled {c : Cone α} {e : Array α} (h : c.Fits e.size) : (c.scaled e).Fits e.size := by
  induction c using induction generalizing e with
  | block b => exact (Block.fits_rescaled h).2 h
  | product members ih =>
    rw [scaled, Fits, rows_scaledMembers h]
    exact fitMembers_scaledMembers members _ h fun c hc e => ih c hc

theorem scaledMembers_scaledMembers_map {e : Array α} {f : α → α}
    (cancel : ∀ x ∈ e, ∀ v, v * x * f x = v) (members : List (Cone α)) (rows : List RowRange)
    (fits : FitMembers e.size members rows)
    (each : ∀ c ∈ members, ∀ e : Array α, (∀ x ∈ e, ∀ v, v * x * f x = v) → c.Fits e.size →
      (c.scaled e).scaled (e.map f) = c) :
    scaledMembers (e.map f) (scaledMembers e members rows) rows = members := by
  induction members generalizing rows with
  | nil => cases rows <;> rfl
  | cons c cs ih =>
    cases rows with
    | nil => rfl
    | cons r rest =>
      obtain ⟨first, fits⟩ := fits
      rw [← RowRange.size_read_eq_count] at first
      have head := each c (by simp) (r.read e) (fun x hx => cancel x (RowRange.mem_of_mem_read hx))
        first
      have tail := ih rest fits fun d hd => each d (by simp [hd])
      simp [scaledMembers, RowRange.read_map, head, tail]

/-- Scaling by factors and then by their inverses restores every box. -/
theorem scaled_scaled_map {c : Cone α} (balanced : c.Balanced) {e : Array α} (fits : c.Fits e.size)
    {f : α → α} (cancel : ∀ x ∈ e, ∀ v, v * x * f x = v) :
    (c.scaled e).scaled (e.map f) = c := by
  induction c using induction generalizing e with
  | block b =>
    simp only [scaled, Block.rescaled_rescaled_map (balanced b (by simp [leaves])) fits cancel]
  | product members ih =>
    rw [scaled, scaled, rows_scaledMembers fits]
    refine congrArg product (scaledMembers_scaledMembers_map cancel members _ fits ?_)
    exact fun c hc e cancel fits => ih c hc (balanced_product.1 balanced c hc) fits cancel

/-! ## Running the scaling -/

theorem run_scale {c : Cone α} {e : Array α} (h : c.Fits e.size) :
    (scale e).run c = .ok () (c.scaled e) := by
  simp [EStateM.run, scale, rescale_of_fits h]

theorem run_scale_of_not_fits {c : Cone α} {e : Array α} (h : ¬ c.Fits e.size) :
    (scale e).run c = .error .lengthMismatch (c.rescale e).1 := by
  have pair : c.rescale e = ((c.rescale e).1, some .lengthMismatch) :=
    Prod.ext rfl (rescale_of_not_fits h)
  simp only [EStateM.run, scale]
  rw [pair]

theorem leavesOf_scaledMembers {e : Array α} (small : e.size < countLimit) (start : Nat)
    (members : List (Cone α)) (within : start + (members.map extent).sum ≤ e.size)
    (each : ∀ c ∈ members, ∀ e : Array α, e.size = c.extent →
      (c.scaled e).leaves = Block.scaledFrom e 0 c.leaves) :
    leavesOf (scaledMembers e members (RowRange.consecutive (Int64.ofNat start)
        ((members.map extent).map Int64.ofNat))) =
      Block.scaledFrom e start (leavesOf members) := by
  induction members generalizing start with
  | nil => rfl
  | cons c cs ih =>
    simp only [List.map_cons, List.sum_cons] at within
    have own : (e.extract start (start + c.extent)).size = c.extent := by
      simp only [Array.size_extract]
      omega
    rw [List.map_cons, RowRange.consecutive_ofNat, scaledMembers, leavesOf, leavesOf,
      RowRange.read_between (by omega) (by omega) small, each c (by simp) _ own,
      ih _ (by omega) fun d hd => each d (by simp [hd]), Block.scaledFrom_append,
      Block.scaledFrom_extract e start _ 0 c.leaves (by simp [extent])]
    rfl

/-- Slices of slices are the absolute rows, however deep the nesting. -/
theorem leaves_scaled {c : Cone α} {e : Array α} (size : e.size = c.extent)
    (small : c.extent < countLimit) : (c.scaled e).leaves = Block.scaledFrom e 0 c.leaves := by
  induction c using induction generalizing e with
  | block b =>
    have whole : e.extract 0 b.dim = e := by
      rw [← extent_block b, ← size, Array.extract_size]
    have own : e.size = b.dim := size.trans (extent_block b)
    simp [scaled, leaves, Block.scaledFrom, whole, Block.rescaled_of_size own]
  | product members ih =>
    rw [scaled, rows_eq_consecutive small, leaves, leaves]
    have within : 0 + (members.map extent).sum ≤ e.size := by
      rw [size, extent_product]
      omega
    apply leavesOf_scaledMembers (size ▸ small) 0 members within
    intro c hc e size
    exact ih c hc size (Nat.lt_of_le_of_lt (extent_le_of_mem hc) small)

theorem extent_scaled {c : Cone α} {e : Array α} (size : e.size = c.extent)
    (small : c.extent < countLimit) : (c.scaled e).extent = c.extent := by
  rw [extent, leaves_scaled size small,
    Block.map_dim_scaledFrom e 0 c.leaves (by rw [size, extent]; omega), extent]

/-- The bounds of every box are multiplied by the factors of its own rows. -/
theorem placed_scaled {c : Cone α} {e : Array α} (size : e.size = c.extent)
    (small : c.extent < countLimit) :
    (c.scaled e).placed =
      c.placed.map fun (i, b) => (i, b.scaled (e.extract i (i + b.dim))) := by
  rw [placed, leaves_scaled size small]
  exact Block.placed_scaledFrom e 0 c.leaves (by rw [size, extent]; omega)

end Cone

end ConicScaling
