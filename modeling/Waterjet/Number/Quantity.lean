import Waterjet.Number.Fault
import Waterjet.Number.Notation

/-!
Numbers of a job: integers of any size, and doubles. Two integers stay exact under addition and
multiplication; where a double takes part the integer is rounded to one first, and a quotient is
always a double.
-/
namespace Waterjet.Number

inductive Quantity where
  | integer (n : Int)
  | double (x : Float)

/-- The nearest double, if it is finite. -/
def doubleOfInt? (n : Int) : Except Fault Float :=
  let bits := nearestBits (.ofNat n.natAbs)
  if bits < infinityBits then .ok (ofBits (n < 0) bits) else .error .integerTooLarge

/-- The largest integer that is not above a double. -/
def floor? (x : Float) : Except Fault Int :=
  match decode x with
  | .nan => .error .nanToInteger
  | .infinite _ => .error .infinityToInteger
  | .finite d => .ok d.floor

/-- A double without its fraction. -/
def truncate? (x : Float) : Except Fault Int :=
  match decode x with
  | .nan => .error .nanToInteger
  | .infinite _ => .error .infinityToInteger
  | .finite d => .ok d.truncate

/-- The double nearest to a quotient of integers. A zero takes its sign from the divisor. -/
def divideIntegers? (m n : Int) : Except Fault Float :=
  if n = 0 then .error .divisionByZero
  else
    let bits := nearestBits ⟨m.natAbs, n.natAbs⟩
    if bits < infinityBits then .ok (ofBits ((m < 0) != (n < 0)) bits)
    else .error .quotientTooLarge

namespace Quantity

def toDouble? : Quantity → Except Fault Float
  | .integer n => doubleOfInt? n
  | .double x => .ok x

/-- Exact on two integers, otherwise on doubles; the left operand is converted first. -/
def combine? (exact : Int → Int → Int) (rounded : Float → Float → Float) :
    Quantity → Quantity → Except Fault Quantity
  | .integer m, .integer n => .ok (.integer (exact m n))
  | a, b => do
    let x ← a.toDouble?
    let y ← b.toDouble?
    .ok (.double (rounded x y))

def add? : Quantity → Quantity → Except Fault Quantity := combine? (· + ·) (· + ·)

def sub? : Quantity → Quantity → Except Fault Quantity := combine? (· - ·) (· - ·)

def mul? : Quantity → Quantity → Except Fault Quantity := combine? (· * ·) (· * ·)

def div? : Quantity → Quantity → Except Fault Quantity
  | .integer m, .integer n => (divideIntegers? m n).map .double
  | a, b => do
    let x ← a.toDouble?
    let y ← b.toDouble?
    if y == 0.0 then .error .doubleDivisionByZero else .ok (.double (x / y))

def isNegative : Quantity → Bool
  | .integer n => n < 0
  | .double x => x < 0.0

def isNonpositive : Quantity → Bool
  | .integer n => n ≤ 0
  | .double x => x ≤ 0.0

/-- Below a whole number. -/
def isBelow (bound : Int) : Quantity → Bool
  | .integer n => n < bound
  | .double x => x < Float.ofInt bound

/-- At least zero; a value that is not a number is not. -/
def isNonnegative : Quantity → Bool
  | .integer n => 0 ≤ n
  | .double x => 0.0 ≤ x

def text : Quantity → String
  | .integer n => written n
  | .double x => shortest x

/-- A fixed number of places, of the double that the number is or rounds to. -/
def fixed? (places : Nat) (q : Quantity) : Except Fault String :=
  q.toDouble?.map (fixed places)

end Quantity

end Waterjet.Number
