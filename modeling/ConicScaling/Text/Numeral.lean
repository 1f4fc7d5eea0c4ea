import ConicScaling.Scalar

/-!
# Numerals

Reading integers and decimals from text. Blanks may surround a numeral, a sign may open it, and a
single underscore may stand between two digits.
-/
namespace ConicScaling.Text

/-- Code points of blanks that are not ASCII, besides the run from U+2000 to U+200A. -/
def wideBlanks : List Nat := [0x85, 0xa0, 0x1680, 0x2028, 0x2029, 0x202f, 0x205f, 0x3000]

/-- Blanks that may stand around a number; the ASCII separators U+001C to U+001F may not. -/
def isBlank (c : Char) : Bool :=
  let n := c.toNat
  n == 0x20 || (0x09 ≤ n && n ≤ 0x0d) || (0x2000 ≤ n && n ≤ 0x200a) || wideBlanks.contains n

/-- Code points of the digit zero; the digits up to nine follow each of them. -/
def zeroDigits : List Nat :=
  [0x30, 0x660, 0x6f0, 0x7c0, 0x966, 0x9e6, 0xa66, 0xae6, 0xb66, 0xbe6, 0xc66, 0xce6, 0xd66, 0xde6,
   0xe50, 0xed0, 0xf20, 0x1040, 0x1090, 0x17e0, 0x1810, 0x1946, 0x19d0, 0x1a80, 0x1a90, 0x1b50,
   0x1bb0, 0x1c40, 0x1c50, 0xa620, 0xa8d0, 0xa900, 0xa9d0, 0xa9f0, 0xaa50, 0xabf0, 0xff10, 0x104a0,
   0x10d30, 0x11066, 0x110f0, 0x11136, 0x111d0, 0x112f0, 0x11450, 0x114d0, 0x11650, 0x116c0,
   0x11730, 0x118e0, 0x11950, 0x11c50, 0x11d50, 0x11da0, 0x16a60, 0x16ac0, 0x16b50, 0x1d7ce,
   0x1d7d8, 0x1d7e2, 0x1d7ec, 0x1d7f6, 0x1e140, 0x1e2f0, 0x1e950, 0x1fbf0]

/-- The value of a decimal digit of any script. -/
def digit? (c : Char) : Option Nat :=
  (zeroDigits.find? fun z => z ≤ c.toNat && c.toNat < z + 10).map (c.toNat - ·)

def isDigit (c : Char) : Bool := (digit? c).isSome

def trim (cs : List Char) : List Char :=
  ((cs.dropWhile isBlank).reverse.dropWhile isBlank).reverse

/-- Drops the underscores between digits; one anywhere else spoils the numeral. -/
def dropSeparators (afterDigit : Bool) : List Char → Option (List Char)
  | [] => some []
  | ['_'] => none
  | '_' :: c :: rest =>
    if afterDigit && isDigit c then dropSeparators false (c :: rest) else none
  | c :: rest => (dropSeparators (isDigit c) rest).map (c :: ·)

/-- Whether a minus sign opens the text, and what follows the sign. -/
def splitSign : List Char → Bool × List Char
  | '-' :: rest => (true, rest)
  | '+' :: rest => (false, rest)
  | rest => (false, rest)

/-- The number that a run of digits writes. -/
def ofDigits (cs : List Char) : Nat := cs.foldl (fun n c => 10 * n + (digit? c).getD 0) 0

def signed (negative : Bool) (n : Nat) : Int := if negative then -(n : Int) else n

/-- Digits alone, at least one of them. -/
def readDigits? (cs : List Char) : Option Nat :=
  if cs.isEmpty || !cs.all isDigit then none else some (ofDigits cs)

def readSigned? (cs : List Char) : Option Int :=
  let (negative, rest) := splitSign cs
  (readDigits? rest).map (signed negative)

/-- The most digits that a whole number may be written with, leading zeros included. -/
def digitLimit : Nat := 4300

/-- Reads a whole number. -/
def readInteger? (s : String) : Option Int :=
  (dropSeparators false (trim s.toList)).bind fun cs =>
    if digitLimit < (splitSign cs).2.length then none else readSigned? cs

/-- A number as text gives it. -/
inductive Numeral
  | finite (negative : Bool) (mantissa : Nat) (exponent : Int)
  | infinite (negative : Bool)
  | nan
  deriving DecidableEq, Repr

/-- The exponent after the digits: none at all, or a mark and a signed whole number. -/
def readExponent? : List Char → Option Int
  | [] => some 0
  | c :: rest => if c == 'e' || c == 'E' then readSigned? rest else none

/-- Digits with at most one point and at least one digit, then the exponent. -/
def readDecimal? (negative : Bool) (cs : List Char) : Option Numeral :=
  let whole := cs.takeWhile isDigit
  let (fraction, rest) :=
    match cs.dropWhile isDigit with
    | '.' :: rest => (rest.takeWhile isDigit, rest.dropWhile isDigit)
    | rest => ([], rest)
  if whole.isEmpty && fraction.isEmpty then none
  else (readExponent? rest).map fun exponent =>
    .finite negative (ofDigits (whole ++ fraction)) (exponent - fraction.length)

def readUnsigned? (negative : Bool) (cs : List Char) : Option Numeral :=
  let word := String.ofList (cs.map Char.toLower)
  if word == "inf" || word == "infinity" then some (.infinite negative)
  else if word == "nan" then some .nan
  else readDecimal? negative cs

/-- Reads a decimal number, or the name of an infinity or of not-a-number. -/
def readNumeral? (s : String) : Option Numeral :=
  (dropSeparators false (trim s.toList)).bind fun cs =>
    let (negative, rest) := splitSign cs
    readUnsigned? negative rest

variable {α : Type} [Scalar α]

/-- The scalar that a numeral stands for. -/
def Numeral.value : Numeral → α
  | .finite negative mantissa exponent =>
    let x : α := Scalar.decimal mantissa exponent
    if negative then -x else x
  | .infinite negative => if negative then -Scalar.infinity else Scalar.infinity
  | .nan => Scalar.nan

end ConicScaling.Text
