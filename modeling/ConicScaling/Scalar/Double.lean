import ConicScaling.Scalar

/-!
# Doubles as scalars

The instance that programs run with: each operation is one rounded operation on doubles.
-/
namespace ConicScaling.Double

/-- The exact value of a finite double is `mantissa · 2 ^ exponent`, with the sign apart. -/
structure Parts where
  negative : Bool
  mantissa : Nat
  exponent : Int
  deriving DecidableEq, Repr

inductive Shape
  | nan
  | infinite (negative : Bool)
  | finite (parts : Parts)
  deriving DecidableEq, Repr

/-- Reads sign, exponent and fraction off the 64 bits; subnormals share the lowest exponent. -/
def shape (x : Float) : Shape :=
  let bits := x.toBits.toNat
  let negative := bits >>> 63 == 1
  let exponent := (bits >>> 52) % 2048
  let fraction := bits % 4503599627370496
  if exponent == 2047 then
    if fraction == 0 then .infinite negative else .nan
  else if exponent == 0 then
    .finite ⟨negative, fraction, -1074⟩
  else
    .finite ⟨negative, fraction + 4503599627370496, (exponent : Int) - 1075⟩

/-- The magnitude of the integer part. -/
def Parts.wholePart (p : Parts) : Nat :=
  match p.exponent with
  | .ofNat k => p.mantissa <<< k
  | .negSucc k => p.mantissa >>> (k + 1)

def truncate? (x : Float) : Option Int :=
  match shape x with
  | .finite p => some (if p.negative then -(p.wholePart : Int) else (p.wholePart : Int))
  | _ => none

/-- The double nearest to a decimal. Where the leading digit stands 400 places away from the
point the answer is infinity, or zero, without computing the power of ten. -/
def ofDecimal (mantissa : Nat) (exponent : Int) : Float :=
  let digits : Int := (Nat.toDigits 10 mantissa).length
  if mantissa == 0 ∨ digits + exponent < -400 then 0.0
  else if 400 < digits + exponent then 1.0 / 0.0
  else match exponent with
    | .ofNat k => Float.ofScientific mantissa false k
    | .negSucc k => Float.ofScientific mantissa true (k + 1)

end ConicScaling.Double

namespace ConicScaling

instance : Scalar Float where
  zero := 0.0
  one := 1.0
  intCast := Float.ofInt
  abs := Float.abs
  sqrt := Float.sqrt
  exp := Float.exp
  log := Float.log
  single x := x.toFloat32.toFloat
  decimal := Double.ofDecimal
  truncate? := Double.truncate?
  decidableLT := inferInstance
  decidableLE := inferInstance

end ConicScaling
