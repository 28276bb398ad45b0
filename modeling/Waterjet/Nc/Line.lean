import Waterjet.Text.Blank
import Waterjet.Text.Quoted
import Waterjet.Text.Upper
import Waterjet.Number.Notation

/-!
The physical lines of a program and their classes. Only a line feed ends a line, and a line is a
command unless it is blank or begins, after white space, with a comment mark.
-/
namespace Waterjet.Nc

open Text Number

inductive LineKind where
  | blank
  | comment
  | command
  deriving DecidableEq

/-- A line with its number, its own text and, for a command, its words in upper case. -/
structure Line where
  number : Int
  raw : String
  kind : LineKind
  words : List String
  deriving DecidableEq

def startsComment : List Char → Bool
  | c :: _ => c == ';' || c == '('
  | [] => false

def classify (number : Int) (raw : String) : Line :=
  let body := strip raw.toList
  if body.isEmpty then ⟨number, raw, .blank, []⟩
  else if startsComment body then ⟨number, raw, .comment, []⟩
  else ⟨number, raw, .command, (Text.words (upper body)).map String.ofList⟩

/-- The lines of a program, numbered from one. Carriage returns at the end of a line are not part
of it. -/
def lines (text : String) : List Line :=
  (physicalLines text.toList).zipIdx 1 |>.map fun (cs, number) =>
    classify number (String.ofList (dropEnd (· == '\r') cs))

def Line.isCommand (line : Line) : Bool := line.kind == .command

/-- The line's text without the white space around it. -/
def Line.body (line : Line) : String := String.ofList (strip line.raw.toList)

def LineKind.label : LineKind → String
  | .blank => "BLANK"
  | .comment => "COMMENT"
  | .command => "COMMAND"

/-- A one-line account of the line for logs. -/
def Line.describe (line : Line) : String :=
  s!"ClassifiedLine(L{written line.number}, {line.kind.label}, {quotedList line.words})"

end Waterjet.Nc
