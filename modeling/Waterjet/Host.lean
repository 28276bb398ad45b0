import Waterjet.Number.Hypot

/-!
What a run takes from the machine and from the libraries that it is built on. The rules of the
program hold for any of them.
-/
namespace Waterjet

open Number

namespace ArrayFault

inductive Kind where
  | memory
  | index
  | value
  deriving DecidableEq

end ArrayFault

/-- An error of the library of arrays, with its text. -/
structure ArrayFault where
  kind : ArrayFault.Kind
  text : String
  deriving DecidableEq

class Host where
  /-- The hypotenuse of finite legs that are not both zero. -/
  norm : Number.Dyadic → Number.Dyadic → NonNegative
  atan2 : Float → Float → Float
  cos : Float → Float
  sin : Float → Float
  /-- Whether there is room for arrays of so many points, one after the other. -/
  allocate? : List Nat → Except ArrayFault Unit
  /-- How many containers of a JSON text may be open within the outermost. -/
  nesting : Nat

end Waterjet
