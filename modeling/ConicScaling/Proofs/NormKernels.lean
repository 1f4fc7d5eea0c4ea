import ConicScaling.Proofs.Doubles
import ConicScaling.Proofs.Intake
import ConicScaling.Proofs.Norms

/-!
# Norms of lines of doubles

Each entry that is met is compared with the norm so far, and the larger one stays; not-a-number
stays as soon as it is met. Entries come slice by slice along the axis, across it, or row by row,
and the two zeros are told apart in some layouts only. Whatever the layout, what stays is the
largest of the magnitudes in the line and of the number that the norm started from.
-/
namespace ConicScaling

variable {α β : Type} [Scalar α]

/-! ## The largest of several numbers -/

namespace Scalar

/-- The largest number of a set, or not-a-number if that is in the set. -/
structure IsLargest (s : Set α) (x : α) : Prop where
  mem : x ∈ s
  isNaN_iff : isNaN x ↔ ∃ y ∈ s, isNaN y
  le : isNaN x = false → ∀ y ∈ s, y ≤ x

theorem isNaN_iff_not_le {x : α} : isNaN x ↔ ¬ x ≤ x := by
  simp [isNaN]

theorem isNaN_eq_false_iff {x : α} : isNaN x = false ↔ x ≤ x := by
  simp [isNaN]

/-- A set has one largest number, up to the sign of zero. -/
theorem IsLargest.agree {s : Set α} {x y : α} (hx : IsLargest s x) (hy : IsLargest s y) :
    same x y ∨ isNaN x ∧ isNaN y := by
  have both : isNaN x ↔ isNaN y := hx.isNaN_iff.trans hy.isNaN_iff.symm
  cases absent : isNaN x with
  | true => exact .inr ⟨rfl, both.1 absent⟩
  | false =>
    have absent' : isNaN y = false := by simpa [absent] using both
    exact .inl (by simp [same, hx.le absent y hy.mem, hy.le absent' x hx.mem])

variable [Ordered α]

/-- Where not-a-number is in a set, nothing bounds the set. -/
theorem isLargest_iff {s : Set α} {x : α} :
    IsLargest s x ↔ x ∈ s ∧ (x ≤ x → ∀ y ∈ s, y ≤ x) := by
  refine ⟨fun h => ⟨h.mem, fun number => h.le (isNaN_eq_false_iff.2 number)⟩, ?_⟩
  rintro ⟨mem, le⟩
  refine ⟨mem, ⟨fun absent => ⟨x, mem, absent⟩, ?_⟩, fun number => le (isNaN_eq_false_iff.1 number)⟩
  rintro ⟨y, hy, absent⟩
  rw [isNaN_iff_not_le] at absent ⊢
  exact fun number => absent (Ordered.left (le number y hy))

theorem isLargest_pair {x y z : α} (choice : z = x ∨ z = y) (hx : z ≤ z → x ≤ z)
    (hy : z ≤ z → y ≤ z) : IsLargest {x, y} z := by
  refine isLargest_iff.2 ⟨by simpa using choice, fun number w hw => ?_⟩
  rcases hw with rfl | rfl
  · exact hx number
  · exact hy number

theorem isLargest_larger (x y : α) : IsLargest {x, y} (larger x y) := by
  unfold larger
  split
  · rename_i second
    refine isLargest_pair (.inr rfl) (fun number => ?_) id
    rcases second with below | absent
    · exact (Ordered.lt_iff.1 below).1
    · exact absurd number (isNaN_iff_not_le.1 absent)
  · rename_i first
    rw [not_or, Bool.not_eq_true, isNaN_eq_false_iff] at first
    refine isLargest_pair (.inl rfl) id fun number => ?_
    by_contra above
    have below := (Ordered.total number first.2).resolve_right above
    exact first.1 (Ordered.lt_iff.2 ⟨below, above⟩)

theorem isLargest_largerLast (x y : α) : IsLargest {x, y} (largerLast x y) := by
  unfold largerLast
  split
  · rename_i second
    refine isLargest_pair (.inr rfl) (fun number => ?_) id
    rcases second with below | absent
    · exact below
    · exact absurd number (isNaN_iff_not_le.1 absent)
  · rename_i first
    rw [not_or, Bool.not_eq_true, isNaN_eq_false_iff] at first
    exact isLargest_pair (.inl rfl) id fun number =>
      (Ordered.total number first.2).resolve_left first.1

/-- The largest of some numbers may stand for all of them. -/
theorem IsLargest.union {s t : Set α} {x y : α} (first : IsLargest s x)
    (second : IsLargest (insert x t) y) : IsLargest (s ∪ t) y := by
  obtain ⟨mem, le⟩ := isLargest_iff.1 second
  refine isLargest_iff.2 ⟨?_, fun number z hz => ?_⟩
  · rcases mem with rfl | mem
    · exact .inl first.mem
    · exact .inr mem
  · have below : x ≤ y := le number x (Set.mem_insert _ _)
    rcases hz with hz | hz
    · exact Ordered.trans ((isLargest_iff.1 first).2 (Ordered.left below) z hz) below
    · exact le number z (Set.mem_insert_of_mem _ hz)

/-- Keeping the larger one again and again leaves the largest. -/
theorem isLargest_foldl {pick : α → α → α} (picks : ∀ x y, IsLargest {x, y} (pick x y)) (start : α)
    (xs : List α) : IsLargest (insert start {x | x ∈ xs}) (xs.foldl pick start) := by
  induction xs generalizing start with
  | nil => simp [isLargest_iff]
  | cons x xs ih =>
    have all : insert start {y | y ∈ x :: xs} = {start, x} ∪ {y | y ∈ xs} := by
      ext y
      simp [or_assoc]
    rw [all]
    exact (picks start x).union (ih (pick start x))

/-- Numbers that do not exceed a member may be added. -/
theorem IsLargest.mono {s t : Set α} {x z : α} (h : IsLargest s x) (sub : s ⊆ t) (hz : z ∈ s)
    (rest : ∀ y ∈ t, y ∈ s ∨ y ≤ z ∨ isNaN z) : IsLargest t x := by
  obtain ⟨mem, le⟩ := isLargest_iff.1 h
  refine isLargest_iff.2 ⟨sub mem, fun number y hy => ?_⟩
  have below : z ≤ x := le number z hz
  rcases rest y hy with hy | under | absent
  · exact le number y hy
  · exact Ordered.trans under below
  · exact absurd (Ordered.left below) (isNaN_iff_not_le.1 absent)

end Scalar

open Scalar

/-- Each of several norms is the largest of a line and of the number that it started from. -/
structure AreNorms {n : Nat} (start : Array α) (lines : Fin n → Set α) (norms : Array α) :
    Prop where
  size : norms.size = n
  largest (l : Fin n) : IsLargest (insert (start.getD l 0) (lines l)) (norms.getD l 0)

/-! ## Stored matrices -/

namespace Storage

/-- The value at row `i` and column `j` where no position is stored twice. -/
def held (zero : β) (S : Storage β) (i j : Nat) : β := S.entry (fun _ v => v) zero i j

/-- What a line holds after something is done to each value of an `m` by `n` matrix. -/
def line (f : β → α) (zero : β) (S : Storage β) (m n : Nat) (axis : Axis) (l : Nat) : Set α :=
  {x | ∃ i < m, ∃ j < n, axis.select i j = l ∧ f (S.held zero i j) = x}

/-- Norms are folded line by line. -/
theorem getD_norms (S : Storage β) (magnitude : β → α) (axis : Axis) {out : Array α} {l : Nat}
    (hl : l < out.size) : (S.norms magnitude axis out).getD l 0 =
      ((S.entries.filter fun e => e.along axis = l).map fun e => magnitude e.value).foldl S.larger
        (out.getD l 0) := by
  unfold norms
  induction S.entries generalizing out with
  | nil => rfl
  | cons e rest ih =>
    -- an entry changes the norm of its own line only
    rw [List.foldl_cons, ih (by simpa using hl), getD_modify hl]
    by_cases own : e.along axis = l <;> simp [own]

/-- Norms depend on the magnitudes of what is stored only. -/
theorem norms?_congr {S : Storage β} {f g : β → α} (same : ∀ e ∈ S.entries, f e.value = g e.value)
    (axis : Axis) (out : Array α) : S.norms? f axis out = S.norms? g axis out := by
  have norms : S.norms f axis = S.norms g axis := by
    funext out
    exact List.foldl_ext _ _ _ fun _ e he => by rw [same e he]
  rw [norms?, norms?, norms]

variable [Ordered α]

theorem isLargest_larger (S : Storage β) (x y : α) : IsLargest {x, y} (S.larger x y) := by
  cases S with
  | dense cols rows => exact isLargest_largerLast x y
  | sparse major minor slices => exact Scalar.isLargest_larger x y

section Once

variable {S : Storage β} (wellFormed : S.WellFormed) (once : S.StoresOnce) {m n : Nat}
  (shape : S.shape = (m, n)) {magnitude : β → α} {zero : β} (zeros : magnitude zero = 0)
  (axis : Axis) {out : Array α}

include wellFormed once shape zeros

/-- A line holds what is stored in it, and zeros. -/
theorem isLargest_norms {l : Nat} (hl : l < out.size)
    (start : 0 ≤ out.getD l 0 ∨ isNaN (out.getD l 0)) :
    IsLargest (insert (out.getD l 0) (S.line magnitude zero m n axis l))
      ((S.norms magnitude axis out).getD l 0) := by
  rw [getD_norms S magnitude axis hl]
  refine (isLargest_foldl S.isLargest_larger _ _).mono (Set.insert_subset_insert ?_)
    (Set.mem_insert _ _) ?_
  · intro x hx
    obtain ⟨e, he, rfl⟩ := List.mem_map.1 hx
    obtain ⟨he, own⟩ := List.mem_filter.1 he
    have row := wellFormed.along_lt_count .row he
    have column := wellFormed.along_lt_count .column he
    rw [show S.count .row = m from congrArg Prod.fst shape] at row
    rw [show S.count .column = n from congrArg Prod.snd shape] at column
    have value : S.held zero e.row e.col = e.value := once.entry_of_mem (fun _ => rfl) he
    exact ⟨e.row, row, e.col, column, of_decide_eq_true own, congrArg magnitude value⟩
  · rintro x (rfl | ⟨i, -, j, -, own, rfl⟩)
    · exact .inl (Set.mem_insert _ _)
    · by_cases there : ∃ e ∈ S.entries, e.row = i ∧ e.col = j
      · obtain ⟨e, he, rfl, rfl⟩ := there
        have value : S.held zero e.row e.col = e.value := once.entry_of_mem (fun _ => rfl) he
        refine .inl (.inr (List.mem_map.2 ⟨e, List.mem_filter.2 ⟨he, decide_eq_true own⟩, ?_⟩))
        rw [value]
      · -- what is not stored is zero, and the norm does not start below it
        have value : S.held zero i j = zero := entry_of_not_stored (by grind)
        rw [value, zeros]
        exact .inr start

/-- An accumulator of the right length takes the norms of all lines. -/
theorem exists_norms? (size : out.size = axis.select m n) (start : ∀ x ∈ out, 0 ≤ x ∨ isNaN x) :
    ∃ norms, S.norms? magnitude axis out = .ok norms ∧
      AreNorms (n := axis.select m n) out (fun l => S.line magnitude zero m n axis l) norms := by
  have count : S.count axis = axis.select m n := by
    cases axis
    · exact congrArg Prod.fst shape
    · exact congrArg Prod.snd shape
  refine ⟨S.norms magnitude axis out, norms?_count magnitude axis wellFormed
    (size.trans count.symm), (size_norms magnitude axis S out).trans size, fun l => ?_⟩
  have hl : l < out.size := size.symm ▸ l.isLt
  refine isLargest_norms wellFormed once shape zeros axis hl ?_
  simpa [hl] using start out[l] (Array.getElem_mem hl)

end Once

end Storage

/-! ## Matrices of any number type -/

/-- Of the integers of 64 bits only the least has a magnitude that is none of them. -/
theorem toInt_abs_of_ne {n : Int64} (h : n ≠ Int64.minValue) : n.abs.toInt = |n.toInt| := by
  have ne : n.toBitVec ≠ BitVec.intMin 64 := fun same => h (Int64.toBitVec_inj.1 same)
  rw [← Int.natCast_natAbs]
  exact BitVec.toInt_abs_eq_natAbs_of_ne_intMin ne

namespace Numbers

/-- The magnitude at row `i` and column `j`; that of an integer is turned into a scalar. -/
def magnitude (M : Numbers α Storage) (i j : Nat) : α :=
  match M with
  | real _ S => Scalar.abs (S.held 0 i j)
  | integer S => (|(S.held 0 i j).toInt| : Int)
  | boolean S => Scalar.ofBool (S.held false i j)

def magnitudes (M : Numbers α Storage) (m n : Nat) : Matrix (Fin m) (Fin n) α :=
  .of fun i j => M.magnitude i j

/-- Whether the magnitude of each stored number is a number of the same type, which that of the
least integer is not. -/
def HasMagnitudes : Numbers α Storage → Prop
  | integer S => ∀ e ∈ S.entries, e.value ≠ Int64.minValue
  | real .. | boolean _ => True

/-- An `m` by `n` matrix that stores no position twice, and no integer without a magnitude. -/
structure StoresOnce (M : Numbers α Storage) (m n : Nat) : Prop where
  wellFormed : M.Holds Storage.WellFormed
  once : M.Holds Storage.StoresOnce
  shape : M.shape = (m, n)
  hasMagnitudes : M.HasMagnitudes

def line (M : Numbers α Storage) (m n : Nat) (axis : Axis) (l : Nat) : Set α :=
  {x | ∃ i < m, ∃ j < n, axis.select i j = l ∧ M.magnitude i j = x}

variable {M : Numbers α Storage} {m n : Nat}

theorem line_column (j : Fin n) :
    M.line m n .column j = Set.range ((M.magnitudes m n).col j) := by
  ext x
  constructor
  · rintro ⟨i, hi, -, -, rfl, rfl⟩
    exact ⟨⟨i, hi⟩, rfl⟩
  · rintro ⟨i, rfl⟩
    exact ⟨i, i.isLt, j, j.isLt, rfl, rfl⟩

theorem line_row (i : Fin m) : M.line m n .row i = Set.range ((M.magnitudes m n).row i) := by
  ext x
  constructor
  · rintro ⟨-, -, j, hj, rfl, rfl⟩
    exact ⟨⟨j, hj⟩, rfl⟩
  · rintro ⟨j, rfl⟩
    exact ⟨i, i.isLt, j, j.isLt, rfl, rfl⟩

section Measured

variable [Ordered α] (h : M.StoresOnce m n) {out : Array α} (start : ∀ x ∈ out, 0 ≤ x ∨ isNaN x)

include h start

theorem StoresOnce.exists_norms? (axis : Axis) (size : out.size = axis.select m n) :
    ∃ norms, M.norms? axis out = .ok norms ∧
      AreNorms (n := axis.select m n) out (fun l => M.line m n axis l) norms := by
  obtain ⟨wellFormed, once, shape, hasMagnitudes⟩ := h
  -- whatever the numbers are, zero has magnitude zero
  cases M with
  | real precision S =>
    exact Storage.exists_norms? wellFormed once shape Ordered.abs_zero axis size start
  | integer S =>
    have magnitudes : ∀ e ∈ S.entries, ((e.value.abs.toInt : Int) : α) = (|e.value.toInt| : Int) :=
      fun e he => congrArg _ (toInt_abs_of_ne (hasMagnitudes e he))
    rw [norms?, Storage.norms?_congr (g := fun n : Int64 => ((|n.toInt| : Int) : α)) magnitudes]
    exact Storage.exists_norms? wellFormed once shape Ordered.intCast_zero axis size start
  | boolean S => exact Storage.exists_norms? wellFormed once shape rfl axis size start

theorem StoresOnce.exists_columnNorms (size : out.size = n) :
    ∃ norms, M.norms? .column out = .ok norms ∧
      AreNorms out (fun j => Set.range ((M.magnitudes m n).col j)) norms := by
  obtain ⟨norms, ran, measured⟩ := h.exists_norms? start .column size
  exact ⟨norms, ran, measured.size, fun j => line_column (M := M) j ▸ measured.largest j⟩

theorem StoresOnce.exists_rowNorms (size : out.size = m) :
    ∃ norms, M.norms? .row out = .ok norms ∧
      AreNorms out (fun i => Set.range ((M.magnitudes m n).row i)) norms := by
  obtain ⟨norms, ran, measured⟩ := h.exists_norms? start .row size
  exact ⟨norms, ran, measured.size, fun i => line_row (M := M) i ▸ measured.largest i⟩

/-- The layout of a matrix only decides on the signs of zeros. -/
theorem StoresOnce.norms_agree {M' : Numbers α Storage} (h' : M'.StoresOnce m n)
    (equal : ∀ i < m, ∀ j < n, M.magnitude i j = M'.magnitude i j) (axis : Axis)
    (size : out.size = axis.select m n) :
    ∃ norms norms', M.norms? axis out = .ok norms ∧ M'.norms? axis out = .ok norms' ∧
      ∀ l < axis.select m n, same (norms.getD l 0) (norms'.getD l 0) ∨
        isNaN (norms.getD l 0) ∧ isNaN (norms'.getD l 0) := by
  obtain ⟨norms, ran, measured⟩ := h.exists_norms? start axis size
  obtain ⟨norms', ran', measured'⟩ := h'.exists_norms? start axis size
  refine ⟨norms, norms', ran, ran', fun l hl => ?_⟩
  have lines : M'.line m n axis l = M.line m n axis l := by
    ext x
    constructor
    · rintro ⟨i, hi, j, hj, own, rfl⟩
      exact ⟨i, hi, j, hj, own, equal i hi j hj⟩
    · rintro ⟨i, hi, j, hj, own, rfl⟩
      exact ⟨i, hi, j, hj, own, (equal i hi j hj).symm⟩
  have other := measured'.largest ⟨l, hl⟩
  rw [lines] at other
  exact (measured.largest ⟨l, hl⟩).agree other

end Measured

end Numbers

/-! ## Accumulated norms -/

/-- A column of one matrix on top of another holds what the two columns hold. -/
theorem range_col_fromRows {ι κ ν δ : Type} (X : Matrix ι ν δ) (Y : Matrix κ ν δ) (j : ν) :
    Set.range ((Matrix.fromRows X Y).col j) = Set.range (X.col j) ∪ Set.range (Y.col j) := by
  have column : (Matrix.fromRows X Y).col j = Sum.elim (X.col j) (Y.col j) := by
    ext (i | i) <;> rfl
  rw [column, Set.Sum.elim_range]

section Accumulated

variable [Ordered α] {n : Nat} {start norms : Array α} {lines lines' : Fin n → Set α}

/-- Norms that start from such numbers are not negative, or not-a-number. -/
theorem AreNorms.unsigned (h : AreNorms start lines norms)
    (unsigned : ∀ l : Fin n, 0 ≤ start.getD l 0) : ∀ x ∈ norms, 0 ≤ x ∨ isNaN x := by
  intro x hx
  obtain ⟨l, hl, rfl⟩ := Array.mem_iff_getElem.1 hx
  have largest := h.largest ⟨l, h.size ▸ hl⟩
  have entry : norms.getD l 0 = norms[l] := by simp [hl]
  rw [entry] at largest
  cases absent : isNaN norms[l] with
  | true => exact .inr rfl
  | false =>
    exact .inl (Ordered.trans (unsigned ⟨l, h.size ▸ hl⟩)
      (largest.le absent _ (Set.mem_insert _ _)))

/-- Norms on top of norms are those of longer lines. -/
theorem AreNorms.append {norms' : Array α} (first : AreNorms start lines norms)
    (second : AreNorms norms lines' norms') :
    AreNorms start (fun l => lines l ∪ lines' l) norms' := by
  refine ⟨second.size, fun l => ?_⟩
  rw [← Set.insert_union]
  exact (first.largest l).union (second.largest l)

variable {P A : Numbers α Storage} {k m : Nat}

theorem exists_kktNorms? (hP : P.StoresOnce k n) (hA : A.StoresOnce m n) {lhs rhs : Array α}
    (columns : lhs.size = n) (row : rhs.size = m) :
    ∃ cols rows, kktNorms? (Operand.stored P) (Operand.stored A) lhs rhs = .ok (cols, rows) ∧
      AreNorms (Array.replicate n 0) (fun j => Set.range
        ((Matrix.fromRows (P.magnitudes k n) (A.magnitudes m n)).col j)) cols ∧
      AreNorms (Array.replicate m 0) (fun i => Set.range ((A.magnitudes m n).row i)) rows := by
  have zeros (l : Nat) : ∀ x ∈ Array.replicate l (0 : α), 0 ≤ x ∨ isNaN x := by
    intro x hx
    rw [Array.eq_of_mem_replicate hx]
    exact .inl Ordered.zero_le_zero
  obtain ⟨objective, ranP, measuredP⟩ := hP.exists_columnNorms (zeros n) (by simp)
  have unsigned : ∀ x ∈ objective, 0 ≤ x ∨ isNaN x :=
    measuredP.unsigned fun l => by simpa using Ordered.zero_le_zero
  obtain ⟨cols, ranA, measuredA⟩ := hA.exists_columnNorms unsigned measuredP.size
  obtain ⟨rows, ranRows, measuredRows⟩ := hA.exists_rowNorms (zeros m) (by simp)
  refine ⟨cols, rows, ?_, ?_, measuredRows⟩
  · have onP : Scalable.norms? .column (Operand.stored P) (lhs.map fun _ => (0 : α)) =
        .ok objective := by
      rw [Array.map_const', columns]
      exact ranP
    have onA : Scalable.norms? .column (Operand.stored A) objective = .ok cols := ranA
    have across : Scalable.norms? .row (Operand.stored A) (rhs.map fun _ => (0 : α)) =
        .ok rows := by
      rw [Array.map_const', row]
      exact ranRows
    simp only [kktNorms?, onP, across]
    simp only [onA, bind, Except.bind, pure, Except.pure]
  · simp only [range_col_fromRows]
    exact measuredP.append measuredA

end Accumulated

/-! ## Matrices of doubles -/

/-- The norm of a column, or of a row, is not-a-number if one of its entries or the entry of the
accumulator is, and otherwise the largest of their magnitudes and that entry; a reset accumulator
has zeros. Measuring `P` and then `A` gives the norms of the columns of `P` on top of `A`, and those
of the rows of `A`, whatever the work vectors held. The layouts do not matter. Matrices are only
read. -/
theorem norms_largest :
    (∀ (M : Numbers Float Storage) (m n : Nat), M.StoresOnce m n → ∀ (reset : Bool)
      (out : Array Float), (∀ x ∈ out, 0 ≤ x ∨ isNaN x) →
        let start := if reset then out.map fun _ => 0 else out
        (out.size = n → ∃ norms, Operand.norms? .column (.stored M) start = .ok norms ∧
          AreNorms start (fun j => Set.range ((M.magnitudes m n).col j)) norms) ∧
        (out.size = m → ∃ norms, Operand.norms? .row (.stored M) start = .ok norms ∧
          AreNorms start (fun i => Set.range ((M.magnitudes m n).row i)) norms)) ∧
    ∀ (P A : Numbers Float Storage) (k m n : Nat), P.StoresOnce k n → A.StoresOnce m n →
      ∀ lhs rhs : Array Float, lhs.size = n → rhs.size = m →
        ∃ cols rows, kktNorms? (Operand.stored P) (Operand.stored A) lhs rhs = .ok (cols, rows) ∧
          AreNorms (Array.replicate n 0) (fun j => Set.range
            ((Matrix.fromRows (P.magnitudes k n) (A.magnitudes m n)).col j)) cols ∧
          AreNorms (Array.replicate m 0) (fun i => Set.range ((A.magnitudes m n).row i)) rows := by
  refine ⟨?_, fun P A k m n hP hA lhs rhs columns row => exists_kktNorms? hP hA columns row⟩
  intro M m n h reset out unsigned start
  have size : start.size = out.size := by
    cases reset <;> simp [start]
  have startUnsigned : ∀ x ∈ start, 0 ≤ x ∨ isNaN x := by
    cases reset with
    | false => exact unsigned
    | true =>
      intro x hx
      obtain ⟨-, -, rfl⟩ := Array.mem_map.1 hx
      exact .inl Ordered.zero_le_zero
  exact ⟨fun columns => h.exists_columnNorms startUnsigned (size.trans columns),
    fun rows => h.exists_rowNorms startUnsigned (size.trans rows)⟩

/-- Unsorted columns with a zero that is stored, an infinity and a not-a-number. -/
def ragged : Numbers Float Storage :=
  .real .double (.sparse .column 3 #[[(2, -5.0), (0, 1.0)], [], [(1, 0.0 / 0.0), (0, -3.0)],
    [(1, 0.0), (0, -1.0 / 0.0)]])

def integers : Numbers Float Storage := .integer (.dense 4 #[#[0, 4, -1, 0]])

theorem norms_largest_ragged :
    ragged.StoresOnce 3 4 ∧ integers.StoresOnce 1 4 ∧
    (∀ x ∈ #[7.0, 0.0 / 0.0, 0.0, (2.5 : Float)], 0 ≤ x ∨ isNaN x) ∧
    (∃ norms, Operand.norms? .column (.stored ragged) #[7.0, 0.0 / 0.0, 0.0, 2.5] = .ok norms ∧
      AreNorms #[7.0, 0.0 / 0.0, 0.0, 2.5] (fun j => Set.range ((ragged.magnitudes 3 4).col j))
        norms) ∧
    ∃ cols rows, kktNorms? (Operand.stored ragged) (Operand.stored integers) #[7.0, 7.0, 7.0, 7.0]
        #[-7.0] = .ok (cols, rows) ∧
      AreNorms (Array.replicate 4 0) (fun j => Set.range
        ((Matrix.fromRows (ragged.magnitudes 3 4) (integers.magnitudes 1 4)).col j)) cols ∧
      AreNorms (Array.replicate 1 0) (fun i => Set.range ((integers.magnitudes 1 4).row i))
        rows := by
  have columns : ragged.StoresOnce 3 4 := by
    refine ⟨?_, by simp [ragged, Numbers.Holds, Storage.StoresOnce], rfl, trivial⟩
    simp only [ragged, Numbers.Holds, Storage.WellFormed]
    grind
  have magnitudes : integers.HasMagnitudes := by
    simp only [integers, Numbers.HasMagnitudes]
    decide
  have dense : integers.StoresOnce 1 4 :=
    ⟨by simp [integers, Numbers.Holds, Storage.WellFormed], trivial, rfl, magnitudes⟩
  have unsigned : ∀ x ∈ #[7.0, 0.0 / 0.0, 0.0, (2.5 : Float)], 0 ≤ x ∨ isNaN x := by
    decide +kernel
  exact ⟨columns, dense, unsigned,
    (norms_largest.1 ragged 3 4 columns false _ unsigned).1 rfl,
    norms_largest.2 ragged integers 3 1 4 columns dense _ _ rfl rfl⟩

end ConicScaling
