import Waterjet.Estimate.Job

/-!
The log of a run. Warnings are always shown, one for each skipped line; what the run found on its
way is shown on request.
-/
namespace Waterjet.Cli

open Number

inductive Level where
  | debug
  | info
  | warning
  deriving DecidableEq

def Level.name : Level → String
  | .debug => "DEBUG"
  | .info => "INFO"
  | .warning => "WARNING"

/-- The part of the command that speaks. -/
inductive Speaker where
  | reader
  | settings
  | estimate
  deriving DecidableEq

def Speaker.name : Speaker → String
  | .reader => "jetsim.core.parser"
  | .settings => "jetsim.estimation.config"
  | .estimate => "jetsim.estimation.cut_time"

structure LogEntry where
  level : Level
  speaker : Speaker
  text : String
  deriving DecidableEq

def LogEntry.line (e : LogEntry) : String := s!"{e.level.name} {e.speaker.name}: {e.text}\n"

def LogEntry.isShown (verbose : Bool) (e : LogEntry) : Bool := verbose || e.level == .warning

def logText (verbose : Bool) (log : List LogEntry) : String :=
  String.join ((log.filter (·.isShown verbose)).map LogEntry.line)

def warningOf (d : Diagnostic) : LogEntry :=
  ⟨.warning, .reader, s!"Skipping line {written d.line}: {d.message}"⟩

def missingConfigEntry (name : String) : LogEntry :=
  ⟨.info, .settings, s!"Config {name} not found, using defaults"⟩

/-- What a program that has been read comes to. -/
def programSummary (p : Program Float) : String :=
  s!"Parsed {p.moves.length} moves ({p.pierces} pierces, {fixed 3 p.cuttingLength} mm cutting, " ++
    s!"{fixed 3 p.rapidLength} mm rapid, {p.diagnostics.length} skipped lines)"

/-- The warnings of a program that has been read, and its summary. -/
def programLog (p : Program Float) : List LogEntry :=
  p.diagnostics.map warningOf ++ [⟨.debug, .reader, programSummary p⟩]

def estimateEntry? (p : Program Float) (c : Calculation) : Except Fault LogEntry := do
  let total ← c.breakdown.total.fixed? 2
  let pierceTime ← c.inputs.pierceTime.fixed? 2
  let speed ← c.inputs.speed.fixed? 2
  let text :=
    s!"Estimated {total} min ({p.pierces} pierces x {pierceTime} min + " ++
      s!"{fixed 3 p.cuttingLength} mm / {speed} mm/min)"
  pure ⟨.debug, .estimate, text⟩

end Waterjet.Cli
