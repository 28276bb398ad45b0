import Waterjet.Number.Double

/-!
The length of the hypotenuse. Legs that are infinite, no numbers or both zero decide it; for all
others it is what a library computes, and libraries differ in its last bit.
-/
namespace Waterjet.Number

/-- A double that is not below zero, infinity included, by its bits. -/
structure NonNegative where
  bits : Nat
  le_infinity : bits ≤ infinityBits

def NonNegative.toDouble (x : NonNegative) : Float := ofBits false x.bits

/-- The double nearest to a ratio, or infinity if that is too large. -/
def NonNegative.nearest (r : Ratio) : NonNegative := ⟨nearestBits r, nearestBits_le r⟩

/-- An infinite leg makes the hypotenuse infinite, whatever the other is. -/
def hypot (norm : Dyadic → Dyadic → NonNegative) (x y : Float) : Float :=
  match decode x, decode y with
  | .infinite _, _ => infinity false
  | _, .infinite _ => infinity false
  | .nan, _ => nan
  | _, .nan => nan
  | .finite a, .finite b =>
    if a.significand = 0 ∧ b.significand = 0 then zero false else (norm a b).toDouble

end Waterjet.Number
