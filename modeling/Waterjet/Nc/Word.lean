import Waterjet.Nc.Line
import Waterjet.Number.Decimal

/-!
Words of a command line: a letter and a number. Of several words with one letter the first counts,
and a first word whose number cannot be read makes its line malformed.
-/
namespace Waterjet.Nc

open Text Number

/-- A word that should hold a number and does not. -/
structure MalformedWord where
  line : Int
  letter : String
  word : String
  deriving DecidableEq

def MalformedWord.message (m : MalformedWord) : String :=
  s!"Field Error at L{written m.line}, {m.letter}: Expected number ({quoted m.word})"

/-- What follows the letter in the first word that begins with it. -/
def firstWord? (letter : List Char) : List String → Option (String × List Char)
  | [] => none
  | word :: rest =>
    if letter.isPrefixOf word.toList then some (word, word.toList.drop letter.length)
    else firstWord? letter rest

/-- The number of a letter, if a word has it. The letter may be given in lower case. -/
def number? (line : Int) (words : List String) (letter : String) :
    Except MalformedWord (Option Decimal) :=
  let key := upper letter.toList
  match firstWord? key words with
  | none => .ok none
  | some (word, digits) =>
    match Decimal.ofChars? digits with
    | some d => .ok (some d)
    | none => .error ⟨line, String.ofList key, word⟩

/-- The numbers of several letters, each letter once; the first malformed one fails the line. -/
def numbers? (line : Int) (words : List String) (letters : List String) :
    Except MalformedWord (List (String × Option Decimal)) :=
  letters.eraseDups.mapM fun letter => do
    let value ← number? line words letter
    pure (letter, value)

end Waterjet.Nc
