import Waterjet.Path.Point

/-!
Circular moves. The center is given by its offset from the start, and the sweep is the way around
it from the direction of the start to that of the end.
-/
namespace Waterjet

open Scalar

/-- The circle of an arc, how far it sweeps in radians, and which way round. -/
structure Arc (α : Type) where
  center : Point α
  radius : α
  angle : α
  clockwise : Bool

namespace Arc

variable {α : Type} [Scalar α]

def turn : α := (2 : Nat) * pi

/-- The turn from one direction to another: downward if clockwise, upward otherwise. -/
def sweep (clockwise : Bool) (first last : α) : α :=
  let delta := last - first
  if clockwise then
    if below ((0 : Nat) : α) delta then delta - turn else delta
  else
    if below delta ((0 : Nat) : α) then delta + turn else delta

/-- The arc from `start` to `finish` about the center at offset `i`, `j`. Its radius is that of
the start. -/
def between (start finish : Point α) (i j : α) (clockwise : Bool) : Arc α :=
  let center := start.offset i j
  { center
    radius := sqrt (i * i + j * j)
    angle := abs (sweep clockwise (center.angleFrom start) (center.angleFrom finish))
    clockwise }

/-- An arc needs both offsets. -/
def resolve? (start finish : Point α) (i j : Option α) (clockwise : Bool) : Option (Arc α) := do
  let i ← i
  let j ← j
  pure (between start finish i j clockwise)

/-- The angle with its sign: clockwise is negative. -/
def signedAngle (arc : Arc α) : α := if arc.clockwise then -arc.angle else arc.angle

/-- The point of the circle in a direction. -/
def pointAt (arc : Arc α) (direction : α) : α × α :=
  (arc.center.x + arc.radius * cos direction, arc.center.y + arc.radius * sin direction)

end Arc

end Waterjet
