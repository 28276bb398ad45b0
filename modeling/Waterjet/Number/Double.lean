import Waterjet.Number.Ratio

/-!
Doubles and their exact values. A finite double is a sign and a natural times a power of two; the
nearest double of a ratio is found in exact arithmetic, and ties go to the even significand.
-/
namespace Waterjet.Number

/-- The first number that the field of the significand cannot hold, two to the 52nd. -/
def hiddenBit : Nat := 0x10000000000000

/-- The bit of the sign. -/
def signBit : Nat := 0x8000000000000000

/-- The bits of positive infinity. -/
def infinityBits : Nat := 0x7FF0000000000000

/-- The least exponent of a unit in the last place. -/
def minExponent : Int := -1074

/-- The exact value of a finite double is `significand * 2 ^ exponent`, up to the sign. -/
structure Dyadic where
  negative : Bool
  significand : Nat
  exponent : Int
  deriving DecidableEq

inductive Decoded where
  | nan
  | infinite (negative : Bool)
  | finite (value : Dyadic)
  deriving DecidableEq

/-- The value without its sign. -/
def Dyadic.magnitude (d : Dyadic) : Ratio := (Ratio.ofNat d.significand).scale 2 d.exponent

def decodeBits (bits : Nat) : Decoded :=
  let negative := signBit ≤ bits
  let rest := bits % signBit
  let field := rest / hiddenBit
  let fraction := rest % hiddenBit
  if infinityBits ≤ rest then
    if fraction == 0 then .infinite negative else .nan
  else if field == 0 then .finite ⟨negative, fraction, minExponent⟩
  else .finite ⟨negative, fraction + hiddenBit, (field : Int) - 1 + minExponent⟩

def decode (x : Float) : Decoded := decodeBits x.toBits.toNat

/-- The exponent of the unit in the last place of the doubles around a ratio. -/
def unitExponent (r : Ratio) : Int :=
  let e := r.binaryExponent - 52
  if e < minExponent then minExponent else e

/-- The bits of the double nearest to a ratio, or of infinity beyond the largest finite double. A
significand that rounds up to the next power of two carries into the exponent field. -/
def nearestBits (r : Ratio) : Nat :=
  if r.num = 0 then 0 else
  let e := unitExponent r
  let bits := (r.scale 2 (-e)).round + (e - minExponent).toNat * hiddenBit
  if bits < infinityBits then bits else infinityBits

theorem nearestBits_le (r : Ratio) : nearestBits r ≤ infinityBits := by
  unfold nearestBits
  split
  · decide
  · dsimp only
    split <;> omega

/-- The natural nearest to another that 53 binary digits can hold, whatever its size. -/
def nearestNatural (n : Nat) : Nat :=
  let unit := Nat.pow 2 (unitExponent (.ofNat n)).toNat
  (Ratio.mk n unit).round * unit

/-- The double with the given bits, apart from the sign. -/
def ofBits (negative : Bool) (bits : Nat) : Float :=
  Float.ofBits (UInt64.ofNat (if negative then signBit + bits else bits))

/-- The double nearest to a ratio with a sign; infinite if that is too large. -/
def ofRatio (negative : Bool) (r : Ratio) : Float := ofBits negative (nearestBits r)

def zero (negative : Bool) : Float := ofBits negative 0

def infinity (negative : Bool) : Float := ofBits negative infinityBits

def nan : Float := Float.ofBits 0x7FF8000000000000

/-- The largest integer that is not above a finite value. -/
def Dyadic.floor (d : Dyadic) : Int :=
  let m := d.magnitude
  (if d.negative then -(m.num : Int) else m.num).fdiv m.den

/-- The integer next to a finite value in the direction of zero. -/
def Dyadic.truncate (d : Dyadic) : Int :=
  let m := d.magnitude
  if d.negative then -((m.num / m.den : Nat) : Int) else (m.num / m.den : Nat)

end Waterjet.Number
