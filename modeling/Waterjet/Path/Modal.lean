import Waterjet.Nc.Word
import Waterjet.Path.Move

/-!
Modal interpretation. The position and the feed rate stay in force until a motion line changes
them; center offsets hold for their own line only. A line without a motion command changes
nothing.
-/
namespace Waterjet

open Scalar Nc Number

/-- The numbers of one line under the letters that the interpreter knows. -/
structure Fields (α : Type) where
  g : Option α
  x : Option α
  y : Option α
  z : Option α
  f : Option α
  i : Option α
  j : Option α

/-- What a motion line takes over from the lines before it. -/
structure Modal (α : Type) where
  position : Point α
  lastKind : MoveKind
  feed : α

variable {α : Type} [Scalar α]

/-- Letters are tried in a fixed order, which decides the word that a malformed line is blamed
on. -/
def Fields.read? (line : Line) : Except MalformedWord (Fields α) := do
  let value (letter : String) : Except MalformedWord (Option α) := do
    let d ← number? line.number line.words letter
    pure (d.map ofDecimal)
  let g ← value "G"
  let x ← value "X"
  let y ← value "Y"
  let z ← value "Z"
  let f ← value "F"
  let i ← value "I"
  let j ← value "J"
  pure { g, x, y, z, f, i, j }

namespace Modal

/-- At the origin, as if after a rapid, without a feed rate. -/
def start : Modal α := ⟨Point.origin, .rapid, (0 : Nat)⟩

/-- Axes that a line does not name keep their value. -/
def target (s : Modal α) (fields : Fields α) : Point α where
  x := fields.x.getD s.position.x
  y := fields.y.getD s.position.y
  z := fields.z.or s.position.z

/-- The feed rate that holds from this line on. -/
def nextFeed (s : Modal α) (fields : Fields α) : α := fields.f.getD s.feed

/-- The jet must pierce where a cut follows a rapid. -/
def pierces (s : Modal α) (kind : MoveKind) : Bool :=
  s.lastKind == .rapid && kind == .cutting

def drive (s : Modal α) (fields : Fields α) : Command → Drive α
  | .rapid => .rapid
  | .linear => .line (s.nextFeed fields)
  | .clockwiseArc =>
    .arc (s.nextFeed fields) true
      (Arc.resolve? s.position (s.target fields) fields.i fields.j true)
  | .counterclockwiseArc =>
    .arc (s.nextFeed fields) false
      (Arc.resolve? s.position (s.target fields) fields.i fields.j false)

def move (s : Modal α) (fields : Fields α) (command : Command) (sequence : Int) : Move α where
  start := s.position
  finish := s.target fields
  sequence
  pierce := s.pierces command.kind
  drive := s.drive fields command

def advance (s : Modal α) (fields : Fields α) (kind : MoveKind) : Modal α where
  position := s.target fields
  lastKind := kind
  feed := s.nextFeed fields

/-- The state after a line, and its move if it makes one. -/
def interpret (s : Modal α) (fields : Fields α) (sequence : Int) : Modal α × Option (Move α) :=
  match fields.g.bind Command.ofNumber? with
  | none => (s, none)
  | some command => (s.advance fields command.kind, some (s.move fields command sequence))

/-- Interpret a command line, unless a word of it is malformed. -/
def interpretLine? (s : Modal α) (line : Line) (sequence : Int) :
    Except MalformedWord (Modal α × Option (Move α)) :=
  (Fields.read? line).map (s.interpret · sequence)

end Modal

end Waterjet
