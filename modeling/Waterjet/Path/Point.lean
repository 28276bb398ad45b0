import Waterjet.Scalar

/-!
Points of the machine's space and rectangles of its table.
-/
namespace Waterjet

open Scalar

/-- A point in millimetres. The height may be unknown, and no measure looks at it. -/
structure Point (α : Type) where
  x : α
  y : α
  z : Option α

namespace Point

variable {α : Type} [Scalar α]

def origin : Point α := ⟨(0 : Nat), (0 : Nat), some (0 : Nat)⟩

/-- The chord between two points, seen from above. -/
def distance (p q : Point α) : α := hypot (q.x - p.x) (q.y - p.y)

/-- The direction of a point as seen from a center. -/
def angleFrom (center p : Point α) : α := atan2 (p.y - center.y) (p.x - center.x)

/-- The point moved by an offset in the plane, without a height. -/
def offset (p : Point α) (i j : α) : Point α := ⟨p.x + i, p.y + j, none⟩

def xy (p : Point α) : α × α := (p.x, p.y)

end Point

/-- The least rectangle found so far around a path. -/
structure Extents (α : Type) where
  minX : α
  maxX : α
  minY : α
  maxY : α

namespace Extents

variable {α : Type} [Scalar α]

/-- The extents of a path without moves. -/
def zero : Extents α := ⟨(0 : Nat), (0 : Nat), (0 : Nat), (0 : Nat)⟩

def around (p : Point α) : Extents α := ⟨p.x, p.x, p.y, p.y⟩

/-- The extents made to reach a further point. -/
def extend (e : Extents α) (p : Point α) : Extents α :=
  ⟨lower e.minX p.x, upper e.maxX p.x, lower e.minY p.y, upper e.maxY p.y⟩

def width (e : Extents α) : α := e.maxX - e.minX

def height (e : Extents α) : α := e.maxY - e.minY

end Extents

end Waterjet
