import Waterjet.Estimate.Value
import Waterjet.Scalar

/-!
Durations as clock text, to the nearest second with halves going up, and signed differences in
minutes. A value that is no number has no clock text.
-/
namespace Waterjet.Clock

open Number Scalar

/-- At least two places, of which a minus sign takes one. -/
def twoPlaces (n : Int) : String :=
  if n < 0 then written n else String.ofList (padded 2 n.natAbs)

/-- Hours, minutes and seconds; hours go on without end. -/
def text (seconds : Int) : String :=
  let hours := seconds.fdiv 3600
  let rest := seconds.fmod 3600
  s!"{twoPlaces hours}:{twoPlaces (rest.fdiv 60)}:{twoPlaces (rest.fmod 60)}"

variable {α : Type} [Scalar α]

/-- The nearest whole number of seconds. -/
def roundSeconds? (seconds : α) : Except Fault Int := floor? (seconds + half)

/-- The seconds in a duration given in minutes. -/
def seconds? (minutes : α) : Except Fault Int := roundSeconds? (minutes * ((60 : Nat) : α))

def format? (minutes : α) : Except Fault String := (seconds? minutes).map text

variable [Host]

/-- Whole minutes are turned into seconds before anything is rounded. -/
def formatQuantity? : Quantity → Except Fault String
  | .double minutes => format? minutes
  | .integer minutes => do
    let seconds ← doubleOfInt? (minutes * 60)
    let rounded ← roundSeconds? seconds
    pure (text rounded)

/-- How far a time is from a reference. A difference that is at least zero gets a plus sign. -/
def difference? (calculated reference : Quantity) : Except Fault String := do
  let difference ← calculated.sub? reference
  let amount ← difference.fixed? 2
  let sign := if difference.isNonnegative then "+" else ""
  pure (sign ++ amount ++ " min")

/-- Why a value has no clock text. -/
inductive ValueFault where
  | arithmetic (f : Fault)
  | notNumber (v : Value)

def ValueFault.message : ValueFault → String
  | .arithmetic f => f.message
  | .notNumber .absent => "unsupported operand type(s) for *: 'NoneType' and 'int'"
  | .notNumber v =>
    s!"can only concatenate {v.typeName} (not \x22float\x22) to {v.typeName}"

/-- Act on the number that a value is in arithmetic. -/
def withQuantity? {β : Type} (v : Value) (act : Quantity → Except Fault β) :
    Except ValueFault β :=
  match v.quantity? with
  | some q => (act q).mapError .arithmetic
  | none => .error (.notNumber v)

def formatValue? (minutes : Value) : Except ValueFault String :=
  withQuantity? minutes formatQuantity?

end Waterjet.Clock
