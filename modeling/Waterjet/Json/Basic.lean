import Waterjet.Number.Literal

/-!
JSON values, and what can be wrong with a text that should hold one. Members keep the order in
which they are written; where a name comes twice, the later member counts.
-/
namespace Waterjet

inductive Json where
  | null
  | bool (b : Bool)
  | integer (n : Int)
  | double (x : Float)
  | text (s : String)
  | array (elements : List Json)
  | object (members : List (String × Json))

namespace Json

/-- The value of the last member of that name. -/
def member? (members : List (String × Json)) (name : String) : Option Json :=
  members.reverse.lookup name

inductive Cause where
  | byteOrderMark
  | expectingValue
  | expectingName
  | expectingColon
  | expectingComma
  | extraData
  | unterminatedText
  | controlCharacter
  | badEscape
  | badCodeEscape
  deriving DecidableEq

def Cause.message : Cause → String
  | .byteOrderMark => "Unexpected UTF-8 BOM (decode using utf-8-sig)"
  | .expectingValue => "Expecting value"
  | .expectingName => "Expecting property name enclosed in double quotes"
  | .expectingColon => "Expecting ':' delimiter"
  | .expectingComma => "Expecting ',' delimiter"
  | .extraData => "Extra data"
  | .unterminatedText => "Unterminated string starting at"
  | .controlCharacter => "Invalid control character at"
  | .badEscape => "Invalid \\escape"
  | .badCodeEscape => "Invalid \\uXXXX escape"

/-- The values that hold others. -/
inductive Container where
  | array
  | object
  deriving DecidableEq

def Container.name : Container → String
  | .array => "array"
  | .object => "object"

def Container.tooDeepMessage (c : Container) : String :=
  s!"maximum recursion depth exceeded while decoding a JSON {c.name} from a unicode string"

/-- A fault in the form of the text lies where only `remaining` characters are left. -/
inductive Fault where
  | malformed (cause : Cause) (remaining : Nat)
  | tooManyDigits (count : Nat)
  | tooDeep (c : Container)
  deriving DecidableEq

/-- A place in a text: characters before it, its line and its column. -/
structure Place where
  index : Nat
  line : Nat
  column : Nat
  deriving DecidableEq

/-- Lines and columns count from one. -/
def place (text : List Char) (remaining : Nat) : Place :=
  let before := text.take (text.length - remaining)
  { index := before.length
    line := before.count '\n' + 1
    column := (before.reverse.takeWhile (· != '\n')).length + 1 }

def Place.describe (p : Place) : String :=
  s!"line {p.line} column {p.column} (char {p.index})"

end Json

end Waterjet
