import Waterjet.Host
import Waterjet.Number.Decimal
import Waterjet.Number.Quantity

/-!
The numbers that geometry is computed with. Paths, metrics and replay are stated over any such
numbers; a job runs on doubles, and the same definitions over the reals say what the job
approximates.
-/
namespace Waterjet

open Number

/-- `below` is the strict order; `==` is equality as numbers. -/
class Scalar (α : Type) extends NatCast α, Add α, Sub α, Mul α, Div α, Neg α, BEq α where
  below : α → α → Bool
  abs : α → α
  sqrt : α → α
  hypot : α → α → α
  atan2 : α → α → α
  cos : α → α
  sin : α → α
  pi : α
  floor? : α → Except Fault Int
  ofDecimal : Decimal → α

namespace Scalar

variable {α : Type} [Scalar α]

def half : α := (1 : Nat) / (2 : Nat)

/-- The first number unless the second is below it. -/
def lower (a b : α) : α := if below b a then b else a

/-- The first number unless the second is above it. -/
def upper (a b : α) : α := if below a b then b else a

/-- Doubles with given functions of a library. They compare as numbers: the two zeros are equal, and
what is not a number equals nothing. -/
abbrev doubles (norm : Number.Dyadic → Number.Dyadic → NonNegative)
    (atan2 : Float → Float → Float) (cos sin : Float → Float) : Scalar Float where
  natCast n := Float.ofNat n
  below x y := x < y
  abs := Float.abs
  sqrt := Float.sqrt
  hypot := Number.hypot norm
  atan2
  cos
  sin
  pi := 3.141592653589793
  floor? := Number.floor?
  ofDecimal := Decimal.toDouble

end Scalar

instance [Host] : Scalar Float := .doubles Host.norm Host.atan2 Host.cos Host.sin

end Waterjet
