import Waterjet.Number.Double

/-!
The fewest digits that read back. Of the decimals with that many digits that round to the double,
the nearest to its exact value is taken, and of two nearest the even one.
-/
namespace Waterjet.Number

/-- A decimal fraction without sign: `coefficient * 10 ^ exponent`. -/
structure Digits where
  coefficient : Nat
  exponent : Int
  deriving DecidableEq

def Digits.ratio (d : Digits) : Ratio := (Ratio.ofNat d.coefficient).scale 10 d.exponent

/-- The double nearest to these digits has the given bits. -/
def Digits.readsAs (d : Digits) (bits : Nat) : Bool := nearestBits d.ratio == bits

/-- The neighbours of a ratio among the multiples of `10 ^ e`, the nearer first. -/
def Ratio.neighbours (r : Ratio) (e : Int) : List Digits :=
  let scaled := r.scale 10 (-e)
  let below := scaled.num / scaled.den
  if scaled.round == below then [⟨below, e⟩, ⟨below + 1, e⟩]
  else [⟨below + 1, e⟩, ⟨below, e⟩]

/-- The value written out in full. -/
def Dyadic.allDigits (d : Dyadic) : Digits :=
  if 0 ≤ d.exponent then ⟨d.magnitude.num, 0⟩
  else ⟨d.significand * Nat.pow 5 (-d.exponent).toNat, d.exponent⟩

/-- Seventeen digits are enough for every double. -/
def maxShortest : Nat := 17

def Dyadic.shortest (d : Dyadic) : Digits :=
  let r := d.magnitude
  let bits := nearestBits r
  let top := r.decimalExponent
  let found := (List.range maxShortest).findSome? fun (count : Nat) =>
    (r.neighbours (top - count)).find? (·.readsAs bits)
  found.getD d.allDigits

end Waterjet.Number
