import Waterjet.Estimate.Clock
import Waterjet.Estimate.Job

/-!
The plain-text report of a job: counts, measures, the time and what it is made of, and the lines
that were skipped.
-/
namespace Waterjet.Report

open Number

/-- Lengths and times have two places. -/
def amount (x : Float) : String := fixed 2 x

def amount? (q : Quantity) : Except Fault String := q.fixed? 2

def countLines (p : Program Float) (replayPoints : Option Int) : List String :=
  [ "Toolpath",
    s!"  Total moves:        {p.moves.length}",
    s!"  Cutting moves:      {p.cuttingMoves}",
    s!"  Rapid moves:        {p.rapidMoves}",
    s!"  Pierce points:      {p.pierces}" ] ++
  replayPoints.toList.map fun n => s!"  Replay points:      {written n}"

variable [Host]

def extentsText (e : Extents Float) : String :=
  s!"X {amount e.minX} .. {amount e.maxX}, Y {amount e.minY} .. {amount e.maxY} " ++
    s!"({amount e.width} x {amount e.height} mm)"

def measureLines (p : Program Float) : List String :=
  [ "Metrics",
    s!"  Cutting perimeter:  {amount p.cuttingLength} mm",
    s!"  Rapid length:       {amount p.rapidLength} mm",
    s!"  Average speed:      {amount p.averageSpeed} mm/min",
    s!"  Extents:            {extentsText p.extents}" ]

def timeLines? (c : Calculation) : Except Fault (List String) := do
  let pierceTime ← amount? c.inputs.pierceTime
  let piercing ← amount? c.breakdown.piercing
  let perimeter ← amount? c.inputs.perimeter
  let speed ← amount? c.inputs.speed
  let cutting ← amount? c.breakdown.cutting
  let total ← Clock.formatQuantity? c.breakdown.total
  pure
    [ "Cut time",
      s!"  Pierce time:        {c.inputs.pierceCount.text} x {pierceTime} min = {piercing} min",
      s!"  Cutting time:       {perimeter} / {speed} = {cutting} min",
      s!"  Total:              {total}" ]

def referenceLine? (total reference : Quantity) : Except Fault String := do
  let time ← Clock.formatQuantity? reference
  let difference ← Clock.difference? total reference
  pure s!"  Reference:          {time} ({difference})"

def skippedLines : List Diagnostic → List String
  | [] => []
  | ds => ["", s!"Skipped lines ({ds.length})"] ++ ds.map fun d => s!"  {d.describe}"

/-- The reference is compared with the total only once the total has been written. -/
def lines? (p : Program Float) (c : Calculation) (reference : Option Value)
    (replayPoints : Option Int) : Except Clock.ValueFault (List String) := do
  let times ← (timeLines? c).mapError .arithmetic
  let comparison ← reference.toList.mapM fun v =>
    Clock.withQuantity? v (referenceLine? c.breakdown.total)
  pure (countLines p replayPoints ++ [""] ++ measureLines p ++ [""] ++ times ++ comparison ++
    skippedLines p.diagnostics)

def render? (p : Program Float) (c : Calculation) (reference : Option Value)
    (replayPoints : Option Int) : Except Clock.ValueFault String :=
  (lines? p c reference replayPoints).map ("\n".intercalate ·)

end Waterjet.Report
