import Waterjet.Number.Shortest

/-!
Written forms of numbers: the shortest that reads back, a fixed number of places, and scientific
notation with a fixed number of places. The last two round the exact value, ties to even.
-/
namespace Waterjet.Number

def decimalDigits (n : Nat) : List Char := Nat.toDigits 10 n

/-- At least `width` digits, with zeros in front. -/
def padded (width n : Nat) : List Char :=
  let digits := decimalDigits n
  List.replicate (width - digits.length) '0' ++ digits

def signed (negative : Bool) (text : List Char) : String :=
  String.ofList (if negative then '-' :: text else text)

def wordNan : String := "nan"

def wordInfinity : List Char := ['i', 'n', 'f']

/-- The exponent has a sign and at least two digits. -/
def exponentMark (e : Int) : List Char :=
  'e' :: (if e < 0 then '-' else '+') :: padded 2 e.natAbs

def dropTrailingZeros (digits : List Char) : List Char :=
  (digits.reverse.dropWhile (· == '0')).reverse

/-- The digits with a point before the last `places` of them. -/
def withPoint (digits : List Char) (places : Nat) : List Char :=
  let split := digits.length - places
  digits.take split ++ '.' :: digits.drop split

/-- Positional notation from ten-thousandths to below ten to the sixteenth, scientific notation
elsewhere. Positional notation keeps a digit on both sides of the point. -/
def Digits.text (d : Digits) : List Char :=
  let all := decimalDigits d.coefficient
  let digits := dropTrailingZeros all
  let top := d.exponent + all.length - 1
  if -4 ≤ top && top < 16 then
    if top < 0 then '0' :: '.' :: List.replicate (-top - 1).toNat '0' ++ digits
    else
      let whole := top.toNat + 1
      if digits.length ≤ whole then
        digits ++ List.replicate (whole - digits.length) '0' ++ ['.', '0']
      else withPoint digits (digits.length - whole)
  else
    match digits with
    | [] => ['0']
    | [one] => one :: exponentMark top
    | first :: rest => first :: '.' :: rest ++ exponentMark top

/-- The shortest text that reads back as the double. -/
def shortest (x : Float) : String :=
  match decode x with
  | .nan => wordNan
  | .infinite negative => signed negative wordInfinity
  | .finite d =>
    signed d.negative (if d.significand == 0 then ['0', '.', '0'] else d.shortest.text)

/-- A fixed number of places, at least one. -/
def fixed (places : Nat) (x : Float) : String :=
  match decode x with
  | .nan => wordNan
  | .infinite negative => signed negative wordInfinity
  | .finite d =>
    let n := (d.magnitude.scale 10 places).round
    signed d.negative (withPoint (padded (places + 1) n) places)

/-- The first `places + 1` digits, rounded, and the power of ten of the first of them. -/
def Dyadic.leading (d : Dyadic) (places : Nat) : Nat × Int :=
  if d.significand == 0 then (0, 0)
  else
    let top := d.magnitude.decimalExponent
    let n := (d.magnitude.scale 10 (places - top)).round
    if Ratio.digitCount n ≤ places + 1 then (n, top) else (n / 10, top + 1)

/-- One digit before the point and a fixed number of places, at least one, after it. -/
def scientific (places : Nat) (x : Float) : String :=
  match decode x with
  | .nan => wordNan
  | .infinite negative => signed negative wordInfinity
  | .finite d =>
    let (n, top) := d.leading places
    signed d.negative (withPoint (padded (places + 1) n) places ++ exponentMark top)

def written (n : Int) : String := signed (n < 0) (decimalDigits n.natAbs)

end Waterjet.Number
