import Waterjet.Estimate.Value

/-!
The settings of an estimate: the time of a pierce, the speed for programs that set none, a speed
that overrides the program's, and the number of points per arc in a replay.
-/
namespace Waterjet

open Number

/-- Settings whose times and speeds are of one type and whose count is of another. -/
structure Config (ν κ : Type) where
  pierceTime : ν
  fallbackSpeed : ν
  speedOverride : Option ν
  arcSamples : κ

/-- Settings as given by a caller. -/
abbrev Config.Given := Config Value Value

/-- Settings of the types that a configuration file gives. -/
abbrev Config.Loaded := Config Float Int

inductive Setting where
  | pierceTime
  | fallbackSpeed
  | speedOverride
  | arcSamples
  deriving DecidableEq

def Setting.key : Setting → String
  | .pierceTime => "pierce_time_per_pierce"
  | .fallbackSpeed => "fallback_cutting_speed"
  | .speedOverride => "cutting_speed_override"
  | .arcSamples => "arc_samples"

inductive ConfigFault where
  | negative (s : Setting) (v : Value)
  | notPositive (s : Setting) (v : Value)
  | tooFew (s : Setting) (v : Value)
  | incomparable (comparison : String) (v : Value)

def ConfigFault.message : ConfigFault → String
  | .negative s v => s!"{s.key} must be >= 0, got {v.shown}"
  | .notPositive s v => s!"{s.key} must be > 0, got {v.shown}"
  | .tooFew s v => s!"{s.key} must be >= 2, got {v.shown}"
  | .incomparable comparison v =>
    s!"'{comparison}' not supported between instances of '{v.typeName}' and 'int'"

/-- Fail with the fault where the value is in the forbidden range. -/
def Value.forbid (v : Value) (comparison : String) (bad : Quantity → Bool) (fault : ConfigFault) :
    Except ConfigFault Unit :=
  match v.quantity? with
  | none => .error (.incomparable comparison v)
  | some q => if bad q then .error fault else .ok ()

namespace Config

/-- A pierce takes half a minute, cutting runs at fifty millimetres a minute, and an arc has 32
points. -/
def default : Loaded := ⟨0.5, 50.0, none, 32⟩

def given (c : Loaded) : Given where
  pierceTime := .double c.pierceTime
  fallbackSpeed := .double c.fallbackSpeed
  speedOverride := c.speedOverride.map .double
  arcSamples := .integer c.arcSamples

/-- Refuse settings out of range, in the order of the settings. What is not a number is in no
range, so it passes. -/
def check (c : Given) : Except ConfigFault Unit := do
  c.pierceTime.forbid "<" Quantity.isNegative (.negative .pierceTime c.pierceTime)
  c.fallbackSpeed.forbid "<=" Quantity.isNonpositive (.notPositive .fallbackSpeed c.fallbackSpeed)
  if let some v := c.speedOverride then
    v.forbid "<=" Quantity.isNonpositive (.notPositive .speedOverride v)
  c.arcSamples.forbid "<" (Quantity.isBelow 2) (.tooFew .arcSamples c.arcSamples)

end Config

end Waterjet
