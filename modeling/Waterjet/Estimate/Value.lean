import Waterjet.Number.Quantity
import Waterjet.Text.Quoted

/-!
Values as a caller gives them, before anything is known about their kind, and how messages show
them.
-/
namespace Waterjet

open Number Text

inductive Value where
  | number (q : Quantity)
  | flag (b : Bool)
  | text (s : String)
  | absent
  | emptyList

namespace Value

def integer (n : Int) : Value := .number (.integer n)

def double (x : Float) : Value := .number (.double x)

/-- A message quotes a text and shows every other value by its bare name. -/
def shown : Value → String
  | .number q => q.text
  | .flag true => "True"
  | .flag false => "False"
  | .text s => quoted s
  | .absent => "None"
  | .emptyList => "[]"

def typeName : Value → String
  | .number (.integer _) => "int"
  | .number (.double _) => "float"
  | .flag _ => "bool"
  | .text _ => "str"
  | .absent => "NoneType"
  | .emptyList => "list"

/-- The value in arithmetic, where a flag counts as zero or one. -/
def quantity? : Value → Option Quantity
  | .number q => some q
  | .flag b => some (.integer (if b then 1 else 0))
  | _ => none

end Value

end Waterjet
