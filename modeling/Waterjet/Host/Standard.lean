import Waterjet.Host
import Waterjet.Number.Notation

/-!
The machine and the libraries that the command is run with. The hypotenuse is correctly rounded,
and an array has the room of some gigabytes.
-/
namespace Waterjet

open Number

namespace Number

/-- Extra bits of the root, more than the rounding to a double can see. -/
def guardBits : Nat := 64

/-- The double nearest to `sqrt n * 2 ^ e`. The last bit of the root that is rounded tells whether
it is inexact. -/
def nearestSqrt (n : Nat) (e : Int) : NonNegative :=
  let scaled := n * Nat.pow 4 guardBits
  let root := Nat.sqrt scaled
  let sticky := if root * root = scaled then 0 else 1
  .nearest ((Ratio.ofNat (2 * root + sticky)).scale 2 (e - guardBits - 1))

/-- The significand that the value has at a smaller exponent. -/
def Dyadic.significandAt (d : Dyadic) (e : Int) : Nat :=
  d.significand * Nat.pow 2 (d.exponent - e).toNat

/-- The sum of the squares is exact, so nothing overflows or underflows on the way. -/
def Dyadic.norm (a b : Dyadic) : NonNegative :=
  let e := if a.exponent < b.exponent then a.exponent else b.exponent
  let m := a.significandAt e
  let n := b.significandAt e
  nearestSqrt (m * m + n * n) e

end Number

namespace ArrayFault

/-- Three digits, or those before the point if they are more, and always a point. -/
def threeDigits (r : Ratio) : String :=
  let hundredths := (r.scale 10 2).round
  let tenths := (r.scale 10 1).round
  String.ofList <|
    if hundredths < 1000 then withPoint (padded 3 hundredths) 2
    else if tenths < 1000 then withPoint (padded 2 tenths) 1
    else withPoint (decimalDigits r.round) 0

def byteUnits : List String := ["bytes", "KiB", "MiB", "GiB", "TiB", "PiB", "EiB"]

/-- An amount of memory in the largest unit of which there is at least one, after rounding. -/
def memoryText (bytes : Nat) : String :=
  let step := bytes.log2 / 10
  let inUnit (step : Nat) : Ratio := ⟨bytes, Nat.pow 1024 step⟩
  let step := if (inUnit step).round == 1024 then step + 1 else step
  threeDigits (inUnit step) ++ " " ++ byteUnits.getD step ""

/-- An element is a double. -/
def elementBytes : Nat := 8

def noRoom (length : Nat) : ArrayFault where
  kind := .memory
  text :=
    s!"Unable to allocate {memoryText (elementBytes * length)} for an array with " ++
      s!"shape ({length},) and data type float64"

def tooManyBytes : ArrayFault where
  kind := .value
  text :=
    "array is too big; `arr.size * arr.dtype.itemsize` is larger than the maximum possible size."

def noLastElement : ArrayFault where
  kind := .index
  text := "index -1 is out of bounds for axis 0 with size 0"

def tooManyElements : ArrayFault where
  kind := .value
  text := "Maximum allowed size exceeded"

end ArrayFault

namespace Host

/-- The most elements of an array that there is room for. -/
def roomLimit : Nat := Nat.pow 2 29

/-- The first number of elements whose bytes cannot be counted. -/
def byteLimit : Nat := Nat.pow 2 60

/-- The first number that is no index of 64 bits. As an index it is negative, and the array for it
has no elements. -/
def indexLimit : Nat := Nat.pow 2 63

/-- What is wrong with an array of a length. Room is asked for the double nearest to it. -/
def arrayFault? (length : Nat) : Option ArrayFault :=
  let rounded := nearestNatural length
  if indexLimit < rounded then some .tooManyElements
  else if rounded = indexLimit then some .noLastElement
  else if byteLimit ≤ rounded then some .tooManyBytes
  else if roomLimit < rounded then some (.noRoom rounded)
  else none

@[reducible]
def standard : Host where
  norm := Number.Dyadic.norm
  atan2 := Float.atan2
  cos := Float.cos
  sin := Float.sin
  allocate? lengths :=
    match lengths.findSome? arrayFault? with
    | some f => .error f
    | none => .ok ()
  nesting := 987

theorem allocate?_standard {lengths : List Nat}
    (h : ∀ n ∈ lengths, nearestNatural n ≤ roomLimit) :
    standard.allocate? lengths = .ok () := by
  have hindex : roomLimit < indexLimit := by decide
  have hbyte : roomLimit < byteLimit := by decide
  have hnone : lengths.findSome? arrayFault? = none := by
    rw [List.findSome?_eq_none_iff]
    intro n hn
    have hle := h n hn
    unfold arrayFault?
    dsimp only
    rw [if_neg (by omega), if_neg (by omega), if_neg (by omega), if_neg (by omega)]
  change (match lengths.findSome? arrayFault? with
    | some f => Except.error f
    | none => .ok ()) = _
  rw [hnone]

end Host

end Waterjet
