import Waterjet.Number.Decimal
import Waterjet.Number.Fault
import Waterjet.Text.Blank

/-!
Numbers as people write them: blanks around them, single underscores between digits, digits of any
script, and the words for infinity and for what is not a number.
-/
namespace Waterjet.Number

open Text

/-- Blanks around a number do not include the four separator controls. -/
def isPadding (c : Char) : Bool :=
  isBlank c && !(0x1C ≤ c.toNat && c.toNat ≤ 0x1F)

/-- Drop underscores, each of which must stand between two digits. -/
def joinGroups? (afterDigit : Bool) : List Char → Option (List Char)
  | [] => some []
  | '_' :: c :: rest =>
    if afterDigit && isDigit c then (joinGroups? true rest).map (c :: ·) else none
  | c :: rest =>
    if c == '_' then none else (joinGroups? (isDigit c) rest).map (c :: ·)

/-- A word for a value that has no digits, in either case. -/
def wordValue? (negative : Bool) (word : List Char) : Option Float :=
  let word := String.ofList (word.map Char.toLower)
  if word == "inf" || word == "infinity" then some (infinity negative)
  else if word == "nan" then some nan
  else none

def double? (cs : List Char) : Option Float := do
  let cs ← joinGroups? false (trim isPadding cs)
  match wordValue? (takeSign cs).1 (takeSign cs).2 with
  | some x => some x
  | none => (Decimal.ofChars? cs).map Decimal.toDouble

inductive IntegerFault where
  | malformed
  | tooManyDigits (count : Nat)
  deriving DecidableEq

/-- An integer written in more digits than this is refused. -/
def maxDigits : Nat := 4300

def tooManyDigitsMessage (count : Nat) : String :=
  s!"Exceeds the limit ({maxDigits} digits) for integer string conversion: " ++
    s!"value has {count} digits; use sys.set_int_max_str_digits() to increase the limit"

/-- The digits in front are counted before what follows them is looked at. -/
def integer? (cs : List Char) : Except IntegerFault Int :=
  let (negative, unsigned) := takeSign (trim isPadding cs)
  let run := unsigned.takeWhile fun c => isDigit c || c == '_'
  match joinGroups? false run with
  | none => .error .malformed
  | some digits =>
    if maxDigits < digits.length then .error (.tooManyDigits digits.length)
    else if digits.isEmpty || run.length < unsigned.length then .error .malformed
    else .ok (if negative then -digitsValue digits else digitsValue digits)

end Waterjet.Number
