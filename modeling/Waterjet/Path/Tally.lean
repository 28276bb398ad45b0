import Waterjet.Path.Move

/-!
Running measures of a path: lengths, pierces, feed rates and extents, taken up move by move. Every
length is that of the chord, for arcs too, and sums run from left to right.
-/
namespace Waterjet

open Scalar

structure Tally (α : Type) where
  moves : Array (Move α)
  cuttingLength : α
  rapidLength : α
  pierces : Nat
  feeds : Array α
  extents : Option (Extents α)

namespace Tally

variable {α : Type} [Scalar α]

def empty : Tally α := ⟨#[], (0 : Nat), (0 : Nat), 0, #[], none⟩

/-- The feed rate that a move adds to the average; zero means that none has been set yet. -/
def programmedFeed? (m : Move α) : Option α := m.feed?.filter fun feed => !(feed == (0 : Nat))

def extend (extents : Option (Extents α)) (m : Move α) : Extents α :=
  ((extents.getD (.around m.start)).extend m.start).extend m.finish

def add (t : Tally α) (m : Move α) : Tally α where
  moves := t.moves.push m
  cuttingLength := if m.isCutting then t.cuttingLength + m.chord else t.cuttingLength
  rapidLength := if m.isCutting then t.rapidLength else t.rapidLength + m.chord
  pierces := if m.pierce then t.pierces + 1 else t.pierces
  feeds := match programmedFeed? m with
    | some feed => t.feeds.push feed
    | none => t.feeds
  extents := some (extend t.extents m)

def ofMoves (moves : List (Move α)) : Tally α := moves.foldl add empty

/-- The speed reported for a path without a feed rate. -/
def defaultSpeed : α := (50 : Nat)

def averageSpeed (t : Tally α) : α :=
  if t.feeds.isEmpty then defaultSpeed
  else t.feeds.foldl (· + ·) ((0 : Nat) : α) / ((t.feeds.size : Nat) : α)

end Tally

end Waterjet
