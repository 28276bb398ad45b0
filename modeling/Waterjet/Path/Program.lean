import Waterjet.Path.Modal
import Waterjet.Path.Tally
import Waterjet.Text.Utf8

/-!
A program read as a path. Reading is one pass over the lines: a malformed line is noted and
skipped, and any other line that is no motion command leaves no trace.
-/
namespace Waterjet

open Scalar Nc Number

/-- A line that was skipped, with the reason. -/
structure Diagnostic where
  line : Int
  text : String
  message : String
  deriving DecidableEq

def Diagnostic.describe (d : Diagnostic) : String := s!"Line {written d.line}: {d.message}"

/-- A path with its measures. -/
structure Program (α : Type) where
  moves : List (Move α)
  cuttingLength : α
  rapidLength : α
  pierces : Nat
  averageSpeed : α
  feedSamples : Nat
  extents : Extents α
  diagnostics : List Diagnostic

variable {α : Type} [Scalar α]

namespace Program

def ofTally (t : Tally α) (diagnostics : List Diagnostic) : Program α where
  moves := t.moves.toList
  cuttingLength := t.cuttingLength
  rapidLength := t.rapidLength
  pierces := t.pierces
  averageSpeed := t.averageSpeed
  feedSamples := t.feeds.size
  extents := t.extents.getD .zero
  diagnostics

/-- The measures of a path that is already there. -/
def ofMoves (moves : List (Move α)) (diagnostics : List Diagnostic) : Program α :=
  ofTally (.ofMoves moves) diagnostics

def cuttingMoves (p : Program α) : Nat := p.moves.countP (·.isCutting)

def rapidMoves (p : Program α) : Nat := p.moves.countP (·.isRapid)

def piercePoints (p : Program α) : List (Move α) := p.moves.filter (·.pierce)

end Program

/-- Where a reader stands between two lines. -/
structure Reader (α : Type) where
  modal : Modal α
  tally : Tally α
  diagnostics : Array Diagnostic

namespace Reader

def start : Reader α := ⟨.start, .empty, #[]⟩

def note (r : Reader α) (line : Line) (m : MalformedWord) : Reader α :=
  { r with diagnostics := r.diagnostics.push ⟨line.number, line.body, m.message⟩ }

/-- Take up what a line has come to. -/
def take (r : Reader α) (modal : Modal α) (move : Option (Move α)) : Reader α :=
  { r with modal, tally := move.elim r.tally r.tally.add }

/-- Moves are numbered from zero in the order in which they come. -/
def step (r : Reader α) (line : Line) : Reader α :=
  if line.isCommand then
    match r.modal.interpretLine? line r.tally.moves.size with
    | .error m => r.note line m
    | .ok (modal, move) => r.take modal move
  else r

def run (r : Reader α) (lines : List Line) : Reader α := lines.foldl step r

def program (r : Reader α) : Program α := .ofTally r.tally r.diagnostics.toList

end Reader

namespace Program

def parse (text : String) : Program α := (Reader.start.run (lines text)).program

/-- The text of a program file. Bytes that are not UTF-8 are replaced, and every kind of line end
counts. -/
def fileText (bytes : List UInt8) : String :=
  String.ofList (Text.unifyLineEnds (Text.Utf8.decode bytes))

def parseBytes (bytes : List UInt8) : Program α := parse (fileText bytes)

end Program

end Waterjet
