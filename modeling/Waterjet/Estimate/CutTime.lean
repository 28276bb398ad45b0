import Waterjet.Estimate.Value

/-!
The cut-time formula: pierces take a fixed time each, and cutting takes its length over the speed.
The formula itself checks nothing; `Calculation.make?` first refuses inputs that it cannot use.
-/
namespace Waterjet

open Number

/-- The four inputs of the formula. -/
structure Inputs (ν : Type) where
  pierceCount : ν
  pierceTime : ν
  perimeter : ν
  speed : ν

inductive Parameter where
  | pierceCount
  | pierceTime
  | perimeter
  | speed
  deriving DecidableEq

def Parameter.name : Parameter → String
  | .pierceCount => "pierce_count"
  | .pierceTime => "pierce_time_per_unit"
  | .perimeter => "cutting_perimeter"
  | .speed => "cutting_speed"

inductive InvalidInput where
  | notNumber (p : Parameter) (v : Value)
  | negative (p : Parameter) (q : Quantity)
  | notPositive (p : Parameter) (q : Quantity)

def InvalidInput.message : InvalidInput → String
  | .notNumber p v => s!"{p.name} must be a number, got {v.shown}"
  | .negative p q => s!"{p.name} must be >= 0, got {q.text}"
  | .notPositive p q => s!"{p.name} must be > 0, got {q.text}"

structure Breakdown where
  piercing : Quantity
  cutting : Quantity
  total : Quantity

/-- Inputs with the times that they give. -/
structure Calculation where
  inputs : Inputs Quantity
  breakdown : Breakdown

/-- Only numbers will do; a flag is none. -/
def Parameter.number? (p : Parameter) : Value → Except InvalidInput Quantity
  | .number q => .ok q
  | v => .error (.notNumber p v)

def Parameter.checkNonnegative (p : Parameter) (q : Quantity) : Except InvalidInput Unit :=
  if q.isNegative then .error (.negative p q) else .ok ()

def Parameter.checkPositive (p : Parameter) (q : Quantity) : Except InvalidInput Unit :=
  if q.isNonpositive then .error (.notPositive p q) else .ok ()

namespace Inputs

/-- All kinds are checked, in the order of the inputs, before any sign. -/
def numbers? (given : Inputs Value) : Except InvalidInput (Inputs Quantity) := do
  let pierceCount ← Parameter.pierceCount.number? given.pierceCount
  let pierceTime ← Parameter.pierceTime.number? given.pierceTime
  let perimeter ← Parameter.perimeter.number? given.perimeter
  let speed ← Parameter.speed.number? given.speed
  pure { pierceCount, pierceTime, perimeter, speed }

def checkSigns (inputs : Inputs Quantity) : Except InvalidInput Unit := do
  Parameter.pierceCount.checkNonnegative inputs.pierceCount
  Parameter.pierceTime.checkNonnegative inputs.pierceTime
  Parameter.perimeter.checkNonnegative inputs.perimeter
  Parameter.speed.checkPositive inputs.speed

def validate? (given : Inputs Value) : Except InvalidInput (Inputs Quantity) := do
  let inputs ← given.numbers?
  inputs.checkSigns
  pure inputs

def breakdown? (inputs : Inputs Quantity) : Except Fault Breakdown := do
  let piercing ← inputs.pierceCount.mul? inputs.pierceTime
  let cutting ← inputs.perimeter.div? inputs.speed
  let total ← piercing.add? cutting
  pure { piercing, cutting, total }

end Inputs

inductive EstimateFault where
  | invalid (i : InvalidInput)
  | arithmetic (f : Fault)

def Calculation.make? (given : Inputs Value) : Except EstimateFault Calculation := do
  let inputs ← given.validate?.mapError .invalid
  let breakdown ← inputs.breakdown?.mapError .arithmetic
  pure { inputs, breakdown }

end Waterjet
