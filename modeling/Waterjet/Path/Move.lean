import Waterjet.Path.Arc

/-!
Moves of the cutting head. Every move has two ends, a number and a pierce mark; only cuts have a
feed rate, and only arcs have a direction and perhaps a circle.
-/
namespace Waterjet

open Scalar

/-- What every move has, whatever drives it. -/
structure Segment (α : Type) where
  start : Point α
  finish : Point α
  sequence : Int
  pierce : Bool

inductive Drive (α : Type) where
  | rapid
  | line (feed : α)
  | arc (feed : α) (clockwise : Bool) (circle : Option (Arc α))

structure Move (α : Type) extends Segment α where
  drive : Drive α

inductive MoveKind where
  | rapid
  | cutting
  deriving DecidableEq

inductive Command where
  | rapid
  | linear
  | clockwiseArc
  | counterclockwiseArc
  deriving DecidableEq

def MoveKind.label : MoveKind → String
  | .rapid => "rapid"
  | .cutting => "cutting"

namespace Command

def kind : Command → MoveKind
  | .rapid => .rapid
  | _ => .cutting

def code : Command → String
  | .rapid => "G00"
  | .linear => "G01"
  | .clockwiseArc => "G02"
  | .counterclockwiseArc => "G03"

/-- The motion command of a preparatory code; other codes move nothing. -/
def ofNumber? {α : Type} [Scalar α] (g : α) : Option Command :=
  if g == (0 : Nat) then some .rapid
  else if g == (1 : Nat) then some .linear
  else if g == (2 : Nat) then some .clockwiseArc
  else if g == (3 : Nat) then some .counterclockwiseArc
  else none

end Command

variable {α : Type}

namespace Drive

def command : Drive α → Command
  | .rapid => .rapid
  | .line _ => .linear
  | .arc _ true _ => .clockwiseArc
  | .arc _ false _ => .counterclockwiseArc

/-- Cuts alone carry a feed rate. -/
def feed? : Drive α → Option α
  | .rapid => none
  | .line feed => some feed
  | .arc feed _ _ => some feed

def circle? : Drive α → Option (Arc α)
  | .arc _ _ circle => circle
  | _ => none

end Drive

def Segment.chord [Scalar α] (s : Segment α) : α := s.start.distance s.finish

namespace Move

def command (m : Move α) : Command := m.drive.command

def kind (m : Move α) : MoveKind := m.command.kind

def isCutting (m : Move α) : Bool := m.kind == .cutting

def isRapid (m : Move α) : Bool := m.kind == .rapid

def feed? (m : Move α) : Option α := m.drive.feed?

def circle? (m : Move α) : Option (Arc α) := m.drive.circle?

end Move

/-- A path may be given from outside by steps of which some have no command yet. -/
inductive PathStep (α : Type) where
  | bare (segment : Segment α)
  | move (move : Move α)

/-- A step without a command has no kind either, so it cannot be counted as rapid or as a cut. -/
inductive PathFault where
  | noCommand
  deriving DecidableEq

def PathStep.move? : PathStep α → Except PathFault (Move α)
  | .bare _ => .error .noCommand
  | .move m => .ok m

end Waterjet
