import ConicScaling.Cone.Build
import Mathlib.Algebra.Ring.Int.Parity
import Mathlib.Data.Nat.Sqrt
import Mathlib.Tactic.LinearCombination

/-!
# Sides of semidefinite sets

A semidefinite set is built from the number of entries that are listed of its matrices, which are
all of them or those of one triangle. An integer square root leads to a side, and that side is
tried. No other one could have as many entries, and the root is never taken of a negative number.
-/
namespace ConicScaling

theorem squareRoot_eq_sqrt (n : Nat) : squareRoot n = n.sqrt :=
  Nat.eq_sqrt.2 (squareRoot_bounds n)

/-! ## Ways to list entries -/

/-- A way to list the entries of square matrices, the way back from their number to a side, and the
sets of such matrices. -/
structure Listing (α : Type) where
  /-- How many entries are listed of a matrix with a given side. -/
  entries : Int → Int
  /-- What the root is taken of, for a number of entries. -/
  radicand : Int → Int
  /-- The side to try, for a root. -/
  side : Int → Int
  kind : Kind
  set : Nat → Block α
  /-- What refuses a number of entries that no matrix has. -/
  mismatch : Nat → Fault α
  radicand_nonneg : ∀ n : Nat, 0 ≤ radicand n
  side_nonneg : ∀ n : Nat, 0 ≤ side (radicand n).toNat.sqrt
  side_entries : ∀ k : Nat, side (radicand (entries k)).toNat.sqrt = k
  kind_set : ∀ k, (set k).kind = kind
  dim_set : ∀ k : Nat, ((set k).dim : Int) = entries k
  side?_set : ∀ k, (set k).side? = some k
  kind_mismatch : ∀ n, (mismatch n).kind = .value

namespace Listing

variable {α : Type}

/-- All entries. -/
def full : Listing α where
  entries k := k * k
  radicand d := d
  side r := r
  kind := .semidefinite
  set := .semidefinite
  mismatch := .notPerfectSquare
  radicand_nonneg := Int.natCast_nonneg
  side_nonneg _ := Int.natCast_nonneg _
  side_entries k := by rw [← Nat.cast_mul, Int.toNat_natCast, Nat.sqrt_eq]
  kind_set _ := rfl
  dim_set k := Nat.cast_mul k k
  side?_set _ := rfl
  kind_mismatch _ := rfl

theorem eight_mul_triangle_add_one (k : Int) :
    8 * (k * (k + 1) / 2) + 1 = (2 * k + 1) * (2 * k + 1) := by
  have halves : 2 * (k * (k + 1) / 2) = k * (k + 1) :=
    Int.mul_ediv_cancel' (Int.even_mul_succ_self k).two_dvd
  linear_combination 4 * halves

/-- The entries of one triangle, with the diagonal. -/
def triangle : Listing α where
  entries k := k * (k + 1) / 2
  radicand d := 8 * d + 1
  side r := (r - 1) / 2
  kind := .semidefiniteTriangle
  set := .semidefiniteTriangle
  mismatch := .notTriangular
  radicand_nonneg n := by omega
  side_nonneg n := by
    have root : 0 < (8 * (n : Int) + 1).toNat.sqrt := Nat.sqrt_pos.2 (by omega)
    omega
  side_entries k := by
    -- the radicand is an odd square, so neither the root nor its half is rounded
    have odd : (2 * (k : Int) + 1) * (2 * k + 1) = ((2 * k + 1) * (2 * k + 1) : Nat) := by
      push_cast
      rfl
    rw [eight_mul_triangle_add_one, odd, Int.toNat_natCast, Nat.sqrt_eq]
    omega
  kind_set _ := rfl
  dim_set k := by
    push_cast [Block.dim]
    rfl
  side?_set _ := rfl
  kind_mismatch _ := rfl

/-! ## The side to try -/

section Candidate

variable (l : Listing α)

/-- The side to try for `n` entries. -/
def candidate (n : Nat) : Nat := (l.side (l.radicand n).toNat.sqrt).toNat

theorem cast_candidate (n : Nat) : (l.candidate n : Int) = l.side (l.radicand n).toNat.sqrt :=
  Int.toNat_of_nonneg (l.side_nonneg n)

theorem candidate_full (n : Nat) : (full : Listing α).candidate n = n.sqrt := rfl

theorem candidate_triangle (n : Nat) :
    (triangle : Listing α).candidate n = ((8 * n + 1).sqrt - 1) / 2 := by
  have radicand : (8 * (n : Int) + 1).toNat = 8 * n + 1 := by omega
  show (((8 * (n : Int) + 1).toNat.sqrt - 1 : Int) / 2).toNat = _
  rw [radicand]
  omega

theorem entries_nonneg (k : Nat) : 0 ≤ l.entries k := by
  rw [← l.dim_set]
  exact Int.natCast_nonneg _

variable {l}

theorem candidate_of_eq_entries {n k : Nat} (h : (n : Int) = l.entries k) :
    l.candidate n = k := by
  rw [candidate, h, l.side_entries, Int.toNat_natCast]

theorem eq_of_entries_eq {j k : Nat} (same : l.entries j = l.entries k) : j = k := by
  have sides := l.side_entries j
  rw [same, l.side_entries] at sides
  exact Nat.cast_injective sides.symm

/-- If any side has `d` entries, the one to try has. -/
theorem candidate_fits_iff {d : Int} :
    0 ≤ d ∧ l.entries (l.candidate d.toNat) = d ↔ ∃ k : Nat, d = l.entries k := by
  constructor
  · rintro ⟨-, fits⟩
    exact ⟨_, fits.symm⟩
  · rintro ⟨k, rfl⟩
    have nonneg := l.entries_nonneg k
    rw [candidate_of_eq_entries (Int.toNat_of_nonneg nonneg)]
    exact ⟨nonneg, rfl⟩

end Candidate

/-! ## Building sets -/

section Build

variable (l : Listing α)

/-- What refuses `d` entries, if no matrix has them. -/
def refusal (d : Int) : Fault α :=
  if d < 0 then .negativeDimension l.kind d else l.mismatch d.toNat

theorem kind_refusal (d : Int) : (l.refusal d).kind = .value := by
  unfold refusal
  split
  · rfl
  · exact l.kind_mismatch _

/-- The set of the matrices of which `d` entries are listed. -/
def build? (d : Int) : Except (Fault α) (Block α) :=
  if 0 ≤ d ∧ l.entries (l.candidate d.toNat) = d then .ok (l.set (l.candidate d.toNat))
  else .error (l.refusal d)

variable {l}

theorem build?_of_neg {d : Int} (h : d < 0) :
    l.build? d = .error (.negativeDimension l.kind d) := by
  rw [build?, if_neg fun both => absurd both.1 (Int.not_le.2 h), refusal, if_pos h]

theorem build?_natCast (n : Nat) : l.build? n =
    if l.entries (l.candidate n) = n then .ok (l.set (l.candidate n))
    else .error (l.mismatch n) := by
  have nonneg : (0 : Int) ≤ n := Int.natCast_nonneg n
  simp only [build?, nonneg, true_and, Int.toNat_natCast, refusal, Int.not_lt.2 nonneg, if_false]

theorem build?_eq_ok_iff {d : Int} {b : Block α} :
    l.build? d = .ok b ↔ ∃ k : Nat, d = l.entries k ∧ b = l.set k := by
  constructor
  · intro built
    by_cases fits : 0 ≤ d ∧ l.entries (l.candidate d.toNat) = d
    · rw [build?, if_pos fits] at built
      exact ⟨_, fits.2.symm, (Except.ok.inj built).symm⟩
    · rw [build?, if_neg fits] at built
      cases built
  · rintro ⟨k, rfl, rfl⟩
    rw [build?, if_pos (candidate_fits_iff.2 ⟨k, rfl⟩),
      candidate_of_eq_entries (Int.toNat_of_nonneg (l.entries_nonneg k))]

theorem build?_of_forall_ne {d : Int} (h : ∀ k : Nat, d ≠ l.entries k) :
    l.build? d = .error (l.refusal d) :=
  if_neg fun fits => (candidate_fits_iff.1 fits).elim h

/-- Whatever refuses negative numbers and agrees on natural numbers builds the same sets. -/
theorem eq_build? {build : Int → Except (Fault α) (Block α)}
    (negative : ∀ d, d < 0 → build d = .error (.negativeDimension l.kind d))
    (natural : ∀ n : Nat, build n = l.build? n) : build = l.build? := by
  funext d
  rcases Int.lt_or_le d 0 with below | nonneg
  · rw [negative d below, build?_of_neg below]
  · obtain ⟨n, rfl⟩ := Int.eq_ofNat_of_zero_le nonneg
    exact natural n

/-- A search that tries the candidate builds the same sets. -/
theorem match_eq_build? {find : Nat → Option Nat} {n : Nat} (h : find n =
      if (l.set (l.candidate n)).dim = n then some (l.candidate n) else none) :
    (match find n with
      | some side => .ok (l.set side)
      | none => .error (l.mismatch n)) = l.build? n := by
  have same : l.entries (l.candidate n) = n ↔ (l.set (l.candidate n)).dim = n := by
    rw [← l.dim_set, Nat.cast_inj]
  rw [h, build?_natCast]
  by_cases fits : (l.set (l.candidate n)).dim = n
  · rw [if_pos fits, if_pos (same.2 fits)]
  · rw [if_neg fits, if_neg (mt same.1 fits)]

end Build

/-! ## Reading sets -/

section Reading

variable [Scalar α] (l : Listing α)

/-- Reads a set in integer arithmetic, with `root` for square roots. -/
def readBy (root : Int → Except (Fault α) Int) (v : Value α) : Except (Fault α) (Block α) := do
  let dim ← v.toInteger?
  if dim < 0 then throw (.negativeDimension l.kind dim)
  let side := l.side (← root (l.radicand dim))
  if l.entries side = dim then return l.set side.toNat else throw (l.mismatch dim.toNat)

/-- The square root of a natural number, rounded down. Negative numbers have any other root, or any
fault. -/
def rootOr (other : Int → Except (Fault α) Int) (n : Int) : Except (Fault α) Int :=
  if n < 0 then other n else .ok n.toNat.sqrt

/-- Whether a way to read sets accepts just the numbers of entries that matrices have, each with the
only side that has it, and takes no root of a negative number. -/
structure Decides (read : Value α → Except (Fault α) (Block α)) : Prop where
  converts : ∀ v, read v = do read (.integer (← v.toInteger?))
  accepts_iff : ∀ d, (∃ b, read (.integer d) = .ok b) ↔ ∃ k : Nat, d = l.entries k
  side : ∀ d b, read (.integer d) = .ok b → b.kind = l.kind ∧ (b.dim : Int) = d ∧
    ∃ k, b.side? = some k ∧ d = l.entries k ∧ ∀ j : Nat, d = l.entries j → j = k
  refuses : ∀ d, (∀ k : Nat, d ≠ l.entries k) →
    read (.integer d) = .error (l.refusal d) ∧ (l.refusal d).kind = .value
  /-- A root of a negative number would make a difference, since it may be any fault. -/
  root : ∀ other v, l.readBy (rootOr other) v = read v

variable {l}

theorem readBy_rootOr (other : Int → Except (Fault α) Int) (v : Value α) :
    l.readBy (rootOr other) v = v.toInteger? >>= l.build? := by
  refine congrArg (v.toInteger? >>= ·) (eq_build? (fun d negative => if_pos negative) fun n => ?_)
  have nonneg : ¬ (n : Int) < 0 := Int.not_lt.2 (Int.natCast_nonneg n)
  have root : rootOr other (l.radicand n) = .ok (l.radicand n).toNat.sqrt :=
    if_neg (Int.not_lt.2 (l.radicand_nonneg n))
  simp only [nonneg, if_false, root, build?_natCast, l.cast_candidate]
  rfl

/-- Once negative dimensions are refused, only natural numbers are left to build from. -/
theorem readDim_bind_eq {next : Nat → Except (Fault α) (Block α)}
    (h : ∀ n : Nat, next n = l.build? n) (v : Value α) :
    Block.readDim l.kind v >>= next = v.toInteger? >>= l.build? := by
  rw [Block.readDim, bind_assoc]
  refine congrArg (v.toInteger? >>= ·) (eq_build? (fun d negative => ?_) fun n => ?_)
  · rw [if_pos negative]
    rfl
  · rw [if_neg (Int.not_lt.2 (Int.natCast_nonneg n))]
    exact h n

theorem readSemidefinite_eq (v : Value α) :
    Block.readSemidefinite v = v.toInteger? >>= full.build? := by
  refine readDim_bind_eq (l := full) (fun n => match_eq_build? ?_) v
  rw [candidate_full, ← squareRoot_eq_sqrt]
  rfl

theorem readSemidefiniteTriangle_eq (v : Value α) :
    Block.readSemidefiniteTriangle v = v.toInteger? >>= triangle.build? := by
  refine readDim_bind_eq (l := triangle) (fun n => match_eq_build? ?_) v
  rw [candidate_triangle, ← squareRoot_eq_sqrt]
  rfl

theorem decides_of_eq {read : Value α → Except (Fault α) (Block α)}
    (h : ∀ v, read v = v.toInteger? >>= l.build?) : l.Decides read := by
  have built (d : Int) : read (.integer d) = l.build? d := h _
  constructor
  case converts =>
    intro v
    simp only [built, h v]
  case accepts_iff =>
    intro d
    simp only [built, build?_eq_ok_iff]
    constructor
    · rintro ⟨_, k, listed, -⟩
      exact ⟨k, listed⟩
    · rintro ⟨k, listed⟩
      exact ⟨_, k, listed, rfl⟩
  case side =>
    intro d b accepted
    rw [built] at accepted
    obtain ⟨k, rfl, rfl⟩ := build?_eq_ok_iff.1 accepted
    exact ⟨l.kind_set k, l.dim_set k, k, l.side?_set k, rfl, fun j same =>
      (eq_of_entries_eq same).symm⟩
  case refuses =>
    intro d unlisted
    rw [built]
    exact ⟨build?_of_forall_ne unlisted, l.kind_refusal d⟩
  case root =>
    intro other v
    rw [readBy_rootOr, h]

end Reading

end Listing

/-- Semidefinite sets are built of square numbers of entries, and of triangular numbers where one
triangle is listed, however large. -/
theorem Block.semidefinite_decides {α : Type} [Scalar α] (a : Arguments α) :
    Listing.full.Decides (fun v => read .semidefinite { a with dim := some v }) ∧
      Listing.triangle.Decides fun v => read .semidefiniteTriangle { a with dim := some v } :=
  ⟨Listing.decides_of_eq Listing.readSemidefinite_eq,
    Listing.decides_of_eq Listing.readSemidefiniteTriangle_eq⟩

/-- A triangular number that no machine word holds, and the number after it. -/
example : Block.readSemidefiniteTriangle (α := Float) (.integer (2 ^ 69 * (2 ^ 70 + 1))) =
      .ok (.semidefiniteTriangle (2 ^ 70)) ∧
    Block.readSemidefiniteTriangle (α := Float) (.integer (2 ^ 69 * (2 ^ 70 + 1) + 1)) =
      .error (.notTriangular (2 ^ 69 * (2 ^ 70 + 1) + 1)) := by
  cbv

end ConicScaling
