import Waterjet.Estimate.Config
import Waterjet.Estimate.CutTime
import Waterjet.Path.Program

/-!
The estimate for a program. An explicit time or speed wins over the settings; a speed is otherwise
the override, or the program's average, or the fallback where the program set no feed rate.
-/
namespace Waterjet

open Number

namespace Program

/-- The speed that the settings and the program give when none is explicit. -/
def impliedSpeed (p : Program Float) (c : Config.Given) : Value :=
  match c.speedOverride with
  | some v => v
  | none => if p.feedSamples = 0 then c.fallbackSpeed else .double p.averageSpeed

def inputs (p : Program Float) (c : Config.Given) (pierceTime speed : Option Value) :
    Inputs Value where
  pierceCount := .integer p.pierces
  pierceTime := pierceTime.getD c.pierceTime
  perimeter := .double p.cuttingLength
  speed := speed.getD (p.impliedSpeed c)

def estimate? (p : Program Float) (c : Config.Given) (pierceTime speed : Option Value) :
    Except EstimateFault Calculation :=
  Calculation.make? (p.inputs c pierceTime speed)

end Program

end Waterjet
