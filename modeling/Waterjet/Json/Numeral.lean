import Waterjet.Json.Basic

/-!
Numerals of JSON: no leading zeros, ASCII digits, and a fraction or an exponent only with a digit.
What does not continue a numeral is left to the reader.
-/
namespace Waterjet.Json

open Number

def takeDigits (cs : List Char) : List Char × List Char :=
  (cs.takeWhile Char.isDigit, cs.dropWhile Char.isDigit)

/-- The whole digits: a single zero, or digits that start with another. -/
def takeWhole? : List Char → Option (List Char × List Char)
  | [] => none
  | c :: rest =>
    if c == '0' then some ([c], rest)
    else if c.isDigit then some (takeDigits (c :: rest))
    else none

/-- The digits after a point, if there is a point with a digit behind it. -/
def takeFraction? : List Char → Option (List Char × List Char)
  | '.' :: c :: rest => if c.isDigit then some (takeDigits (c :: rest)) else none
  | _ => none

def signedExponent (rest : List Char) : Option (Int × List Char) :=
  let (negative, unsigned) := takeSign rest
  let (digits, rest) := takeDigits unsigned
  if digits.isEmpty then none
  else some (if negative then -digitsValue digits else digitsValue digits, rest)

/-- An exponent, if there is one with a digit. -/
def takeExponent? : List Char → Option (Int × List Char)
  | c :: rest => if c == 'e' || c == 'E' then signedExponent rest else none
  | [] => none

/-- A numeral without its sign. It is an integer if it has neither a fraction nor an exponent. -/
def readUnsigned? (negative : Bool) (cs : List Char) :
    Option (Except Fault (Json × List Char)) := do
  let (whole, rest) ← takeWhole? cs
  let fraction := takeFraction? rest
  let (digits, rest) := fraction.getD ([], rest)
  let exponent := takeExponent? rest
  let (e, rest) := exponent.getD (0, rest)
  if fraction.isNone && exponent.isNone then
    if maxDigits < whole.length then pure (.error (.tooManyDigits whole.length))
    else
      let n : Int := digitsValue whole
      pure (.ok (.integer (if negative then -n else n), rest))
  else
    let value : Decimal := ⟨negative, digitsValue (whole ++ digits), e - digits.length⟩
    pure (.ok (.double value.toDouble, rest))

def readNumeral? : List Char → Option (Except Fault (Json × List Char))
  | '-' :: rest => readUnsigned? true rest
  | rest => readUnsigned? false rest

end Waterjet.Json
