import ConicScaling.Decimal.Digits

/-!
# Written numbers

How chosen digits are set down: positionally, or with an exponent, and what stands for the values
that have no digits.
-/
namespace ConicScaling.Decimal

/-- The decisions of a number format. -/
structure Format where
  /-- `none` writes the fewest digits that read back, `some n` always `n` places. -/
  places : Option Nat
  /-- Leading exponents from here … -/
  positionalFrom : Int
  /-- … to below here are written without an exponent. -/
  positionalBelow : Int
  /-- The least number of digits in an exponent, which always has a sign. -/
  exponentWidth : Nat

/-- Numbers as messages and answers show them. -/
def plain : Format := ⟨none, -4, 16, 2⟩

/-- One digit before the point and `places` after it, always with an exponent. -/
def scientific (places : Nat) : Format := ⟨some places, 0, 0, 2⟩

def zeros (n : Nat) : List Char := List.replicate n '0'

/-- The digits before and after the point, when `point` of them stand before it. -/
def positional (digits : List Char) (point : Int) : List Char :=
  match point with
  | .ofNat k =>
    let whole := digits.take k ++ zeros (k - digits.length)
    let rest := digits.drop k
    (if whole.isEmpty then ['0'] else whole) ++ '.' :: (if rest.isEmpty then ['0'] else rest)
  | .negSucc k => '0' :: '.' :: zeros (k + 1) ++ digits

def exponentText (width : Nat) (exponent : Int) : List Char :=
  let digits := Nat.toDigits 10 exponent.natAbs
  'e' :: (if exponent < 0 then '-' else '+') :: zeros (width - digits.length) ++ digits

/-- One digit, a point if more follow, and the exponent. -/
def exponential (digits : List Char) (width : Nat) (exponent : Int) : List Char :=
  digits.take 1 ++ (if digits.length ≤ 1 then [] else '.' :: digits.drop 1)
    ++ exponentText width exponent

/-- The digits that are shown: all up to the last that is not zero, or the fixed number of them.
Rounding up to a power of ten leaves one zero more than either needs. -/
def Format.shown (f : Format) (digits : List Char) : List Char :=
  match f.places with
  | none => (digits.reverse.dropWhile (· == '0')).reverse
  | some n => digits.take (n + 1)

def Format.writeDigits (f : Format) (d : Digits) : List Char :=
  let digits := Nat.toDigits 10 d.digits
  let leading := (digits.length : Int) + d.exponent - 1
  if f.positionalFrom ≤ leading ∧ leading < f.positionalBelow then
    positional (f.shown digits) (leading + 1)
  else exponential (f.shown digits) f.exponentWidth leading

/-- Writes a magnitude. Zero rounded to some places has as many digits as any other number. -/
def Format.writeMagnitude (f : Format) (p : Double.Parts) : List Char :=
  match f.places with
  | none => f.writeDigits (shortest p)
  | some n =>
    if p.mantissa == 0 then exponential (zeros (n + 1)) f.exponentWidth 0
    else f.writeDigits (rounded n p)

/-- Writes a double. -/
def Format.write (f : Format) (x : Float) : String :=
  match Double.shape x with
  | .nan => "nan"
  | .infinite negative => if negative then "-inf" else "inf"
  | .finite p => String.ofList ((if p.negative then ['-'] else []) ++ f.writeMagnitude p)

end ConicScaling.Decimal
