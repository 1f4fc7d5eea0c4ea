import ConicScaling.Scalar.Double

/-!
# Decimal digits of doubles

Two ways to choose decimal digits for an exact binary value: the fewest that still read back as the
same double, and a fixed number of them. Both work on natural numbers only, so neither rounds
before it decides.
-/
namespace ConicScaling.Decimal

/-- The value `digits · 10 ^ exponent`. -/
structure Digits where
  digits : Nat
  exponent : Int
  deriving DecidableEq, Repr

/-- A positive fraction `num / den`. -/
structure Fraction where
  num : Nat
  den : Nat

/-- How many decimal digits a number is written with. -/
def length (n : Nat) : Nat := (Nat.toDigits 10 n).length

/-- The exponent of the leading digit: the `p` with `10 ^ p ≤ num / den < 10 ^ (p + 1)`. -/
def Fraction.leading (x : Fraction) : Int :=
  if x.den ≤ x.num then (length (x.num / x.den) : Int) - 1
  else -(length ((x.den + x.num - 1) / x.num - 1) : Int)

/-- The fraction in units of `10 ^ exponent`. -/
def Fraction.inUnits (x : Fraction) (exponent : Int) : Fraction :=
  match exponent with
  | .ofNat k => ⟨x.num, x.den * Nat.pow 10 k⟩
  | .negSucc k => ⟨x.num * Nat.pow 10 (k + 1), x.den⟩

/-- The nearest integer, a half going to the even neighbour. -/
def Fraction.round (x : Fraction) : Nat :=
  let low := x.num / x.den
  let rest := 2 * (x.num % x.den)
  if rest < x.den ∨ rest == x.den ∧ low % 2 == 0 then low else low + 1

/-- `n · 2 ^ exponent` as a fraction. -/
def scaled (n : Nat) (exponent : Int) : Fraction :=
  match exponent with
  | .ofNat k => ⟨n <<< k, 1⟩
  | .negSucc k => ⟨n, 1 <<< (k + 1)⟩

/-- The decimals that read back as a given double: those between `low` and `high`, in the unit
fixed by `exponent`, with the ends themselves when the mantissa is even. -/
structure Interval where
  low : Nat
  high : Nat
  closed : Bool
  exponent : Int

/-- The interval reaches half way to either neighbour. Below a power of two the doubles lie twice
as dense, so there the lower half is half as wide. -/
def interval (p : Double.Parts) : Interval where
  low := 4 * p.mantissa - if p.mantissa == 4503599627370496 ∧ -1074 < p.exponent then 1 else 2
  high := 4 * p.mantissa + 2
  closed := p.mantissa % 2 == 0
  exponent := p.exponent - 2

def Interval.contains (i : Interval) (d : Digits) : Bool :=
  let low := (scaled i.low i.exponent).inUnits d.exponent
  let high := (scaled i.high i.exponent).inUnits d.exponent
  if i.closed then
    decide (low.num ≤ d.digits * low.den) && decide (d.digits * high.den ≤ high.num)
  else
    decide (low.num < d.digits * low.den) && decide (d.digits * high.den < high.num)

/-- The multiple of `10 ^ exponent` that reads back as `p`, the nearer one if both neighbours do. -/
def candidate? (p : Double.Parts) (exponent : Int) : Option Digits :=
  let x := (scaled p.mantissa p.exponent).inUnits exponent
  let near : Digits := ⟨x.round, exponent⟩
  let far : Digits :=
    ⟨if near.digits == x.num / x.den then near.digits + 1 else x.num / x.den, exponent⟩
  if (interval p).contains near then some near
  else if (interval p).contains far then some far
  else none

/-- Tries one digit, then two, and so on; seventeen digits always read back. -/
def search (p : Double.Parts) (leading : Int) : Nat → Digits
  | 0 => ⟨((scaled p.mantissa p.exponent).inUnits (leading - 16)).round, leading - 16⟩
  | n + 1 => (candidate? p (leading - (16 - n : Nat))).getD (search p leading n)

/-- The fewest digits that read back as the double `p`, and of those the nearest to it. -/
def shortest (p : Double.Parts) : Digits :=
  if p.mantissa == 0 then ⟨0, 0⟩
  else search p (scaled p.mantissa p.exponent).leading 17

/-- The value rounded to `places + 1` digits, a half going to the even neighbour. -/
def rounded (places : Nat) (p : Double.Parts) : Digits :=
  if p.mantissa == 0 then ⟨0, -(places : Int)⟩
  else
    let x := scaled p.mantissa p.exponent
    let exponent := x.leading - places
    ⟨(x.inUnits exponent).round, exponent⟩

end ConicScaling.Decimal
