import ConicScaling.Scalar
import ConicScaling.Summation

/-!
# Limits on scaling factors

Candidates for scaling factors are norms. They are kept within bounds, and a norm of zero, which
tells nothing, becomes a neutral value instead of the lower bound.
-/
namespace ConicScaling

variable {α : Type} [Scalar α]

/-- Bounds for candidates and the value that stands for those that are not positive. -/
structure Limiter (α : Type) where
  low : α
  high : α
  degenerate : α

namespace Limiter

/-- Limits one entry of a vector. Not-a-number passes through, and as a bound it prevails. -/
def limitEntry (l : Limiter α) (x : α) : α :=
  if x ≤ 0 then l.degenerate else Scalar.smaller (Scalar.larger x l.low) l.high

def limitVector (l : Limiter α) (v : Array α) : Array α := v.map l.limitEntry

@[simp] theorem size_limitVector (l : Limiter α) (v : Array α) :
    (l.limitVector v).size = v.size := by
  simp [limitVector]

/-- Limits a single candidate. Bounds that are not-a-number are ignored. -/
def limit (l : Limiter α) (x : α) : α :=
  if x ≤ 0 then l.degenerate else Scalar.lower (Scalar.raise x l.low) l.high

end Limiter

/-- One over the square root of each entry. -/
def invSqrt (v : Array α) : Array α := v.map fun x => Scalar.reciprocal (Scalar.sqrt x)

@[simp] theorem size_invSqrt (v : Array α) : (invSqrt v).size = v.size := by simp [invSqrt]

/-- The mean, zero if there is no entry. -/
def mean (v : Array α) : α :=
  if v.isEmpty then 0 else sumPairwise (· + ·) 0 v.toList / Scalar.ofNat v.size

/-- The largest entry of a nonempty vector, starting the comparison from its first; not-a-number
prevails. Zero if there is no entry. -/
def largest (v : Array α) : α := v.foldl Scalar.larger (v.getD 0 0)

def smallest (v : Array α) : α := v.foldl Scalar.smaller (v.getD 0 0)

/-- The largest magnitude, zero if there is no entry. -/
def infNorm (v : Array α) : α := largest (v.map Scalar.abs)

/-- The ratio between the largest and the smallest positive entry, one if there is none. -/
def spread (v : Array α) : α :=
  let positive := v.filter fun x => 0 < x
  if positive.isEmpty then 1 else largest positive / smallest positive

end ConicScaling
