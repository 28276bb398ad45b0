/-!
What can go wrong in arithmetic between integers of any size and doubles.
-/
namespace Waterjet.Number

inductive Fault where
  | divisionByZero
  | doubleDivisionByZero
  | integerTooLarge
  | quotientTooLarge
  | infinityToInteger
  | nanToInteger
  deriving DecidableEq

def Fault.message : Fault → String
  | .divisionByZero => "division by zero"
  | .doubleDivisionByZero => "float division by zero"
  | .integerTooLarge => "int too large to convert to float"
  | .quotientTooLarge => "integer division result too large for a float"
  | .infinityToInteger => "cannot convert float infinity to integer"
  | .nanToInteger => "cannot convert float NaN to integer"

end Waterjet.Number
