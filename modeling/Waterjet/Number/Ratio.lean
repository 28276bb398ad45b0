/-!
Quotients of naturals, in which all rounding is done, and their rounding to an integer.
-/
namespace Waterjet.Number

/-- The value is `num / den`; the denominator is never zero where a ratio is rounded. -/
structure Ratio where
  num : Nat
  den : Nat
  deriving DecidableEq

namespace Ratio

def ofNat (n : Nat) : Ratio := ⟨n, 1⟩

/-- Multiply by a power of the base, whose exponent may be negative. -/
def scale (base : Nat) (e : Int) (r : Ratio) : Ratio :=
  ⟨r.num * Nat.pow base e.toNat, r.den * Nat.pow base (-e).toNat⟩

/-- The nearest integer; of two nearest, the even one. -/
def round (r : Ratio) : Nat :=
  let whole := r.num / r.den
  let rest := 2 * (r.num % r.den)
  if rest < r.den then whole
  else if r.den < rest then whole + 1
  else whole + whole % 2

/-- The largest `e` with `2 ^ e` at most the ratio, if that is positive. -/
def binaryExponent (r : Ratio) : Int :=
  let e : Int := (r.num.log2 : Int) - r.den.log2
  let rest := r.scale 2 (-e)
  if rest.den ≤ rest.num then e else e - 1

/-- The number of decimal digits. -/
def digitCount (n : Nat) : Nat := (Nat.toDigits 10 n).length

/-- The largest `e` with `10 ^ e` at most the ratio, if that is positive. -/
def decimalExponent (r : Ratio) : Int :=
  if r.den ≤ r.num then (digitCount (r.num / r.den) : Int) - 1
  else -(digitCount ((r.den - 1) / r.num) : Int)

end Ratio

end Waterjet.Number
