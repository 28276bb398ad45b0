import Waterjet.Number.Double
import Waterjet.Text.Digit

/-!
Decimal numerals. A numeral is a sign, digits with at most one point, and an exponent; its value
is a natural times a power of ten, and it is read as the double nearest to that.
-/
namespace Waterjet.Number

open Text

/-- The value is `coefficient * 10 ^ exponent`, up to the sign. -/
structure Decimal where
  negative : Bool
  coefficient : Nat
  exponent : Int
  deriving DecidableEq

/-- The value without its sign. -/
def Decimal.magnitude (d : Decimal) : Ratio := (Ratio.ofNat d.coefficient).scale 10 d.exponent

/-- The nearest double. With an exponent so large that eight to its power is out of range already,
the answer is infinity or zero and the power of ten is never formed. -/
def Decimal.toDouble (d : Decimal) : Float :=
  let size := d.coefficient.log2
  if d.coefficient = 0 then zero d.negative
  else if 0 ≤ d.exponent ∧ 1024 ≤ size + 3 * d.exponent then infinity d.negative
  else if size + 1076 + 3 * d.exponent ≤ 0 then zero d.negative
  else ofRatio d.negative d.magnitude

def digitsValue (digits : List Char) : Nat :=
  digits.foldl (fun n c => 10 * n + (digit? c).getD 0) 0

/-- Whether a minus sign comes first, and what follows the sign if there is one. -/
def takeSign : List Char → Bool × List Char
  | '-' :: rest => (true, rest)
  | '+' :: rest => (false, rest)
  | rest => (false, rest)

/-- An exponent part to the end of the numeral: nothing, or the letter, a sign if any, and
digits. -/
def exponentPart? : List Char → Option Int
  | [] => some 0
  | c :: rest =>
    if c == 'e' || c == 'E' then
      let (negative, digits) := takeSign rest
      if !digits.isEmpty && digits.all isDigit then
        some (if negative then -digitsValue digits else digitsValue digits)
      else none
    else none

/-- The digits after a point, if a point comes first, and the rest. -/
def takeFraction : List Char → List Char × List Char
  | '.' :: rest => (rest.takeWhile isDigit, rest.dropWhile isDigit)
  | rest => ([], rest)

/-- Read a whole numeral. A point may stand first or last, but not without a digit. -/
def Decimal.ofChars? (cs : List Char) : Option Decimal :=
  let (negative, unsigned) := takeSign cs
  let whole := unsigned.takeWhile isDigit
  let (fraction, rest) := takeFraction (unsigned.dropWhile isDigit)
  if whole.isEmpty && fraction.isEmpty then none
  else (exponentPart? rest).map fun e =>
    ⟨negative, digitsValue (whole ++ fraction), e - fraction.length⟩

end Waterjet.Number
