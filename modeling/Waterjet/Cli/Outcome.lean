import Waterjet.Cli.File
import Waterjet.Cli.Log
import Waterjet.Cli.Request
import Waterjet.Estimate.ConfigFile
import Waterjet.Estimate.Report
import Waterjet.Path.Polyline

/-!
What a run answers: the two texts that it writes and how it ends. The settings come first, then
the program, then the estimate, and the first that fails decides the answer. A run that fails
writes nothing to the standard output.
-/
namespace Waterjet.Cli

open Number

/-- A failure that is not answered with a message of the command's own. -/
inductive Failure where
  | arithmetic (f : Fault)
  | undecodable (f : Text.Utf8.Fault)
  | tooManyDigits (count : Nat)
  | tooDeep (c : Json.Container)
  | isDirectory (name : String)
  | nameTooLong (name : String)
  | nullInName
  | unreadable (name : String) (code : Nat) (reason : String)
  | replay (f : ReplayFault)
  | badReference (v : Value)

def Failure.message : Failure → String
  | .arithmetic f => f.message
  | .undecodable f => f.message
  | .tooManyDigits count => tooManyDigitsMessage count
  | .tooDeep c => c.tooDeepMessage
  | .isDirectory name => isDirectoryMessage name
  | .nameTooLong name => nameTooLongMessage name
  | .nullInName => nullInNameMessage
  | .unreadable name code reason => unreadableMessage name code reason
  | .replay f => f.message
  | .badReference v => (Clock.ValueFault.notNumber v).message

inductive Ending where
  | status (code : Nat)
  | failure (f : Failure)

structure Outcome where
  stdout : String
  stderr : String
  ending : Ending

/-- Why a run ends without a report. -/
inductive Stop where
  | exit (code : Nat) (reason : String)
  | failure (f : Failure)

/-- A file whose values are refused is answered with a message; some faults have none. -/
def Stop.ofLoadFault (path : String) : LoadFault → Stop
  | .undecodable f => .failure (.undecodable f)
  | .tooManyDigits count => .failure (.tooManyDigits count)
  | .tooDeep c => .failure (.tooDeep c)
  | .outOfRange f => .failure (.arithmetic f)
  | f => .exit 2 (f.message (plainName path))

def Stop.ofEstimateFault : EstimateFault → Stop
  | .invalid i => .exit 2 i.message
  | .arithmetic f => .failure (.arithmetic f)

def Stop.ofValueFault : Clock.ValueFault → Stop
  | .arithmetic f => .failure (.arithmetic f)
  | .notNumber v => .failure (.badReference v)

section Run

variable [Host]

/-- The settings that a file gives. One that is not there, whether or not its name could be that of
a file, gives the defaults, and the log says so. -/
def fileSettings? (path : String) : FileState → Except Stop (Config.Loaded × List LogEntry)
  | .contents bytes =>
    match Config.load? bytes with
    | .ok settings => .ok (settings, [])
    | .error f => .error (.ofLoadFault path f)
  | .directory => .error (.failure (.isDirectory path))
  | .nameTooLong => .error (.failure (.nameTooLong path))
  | .unreadable code reason =>
    if code = loopCode then .ok (.default, [missingConfigEntry (plainName path)])
    else .error (.failure (.unreadable path code reason))
  | _ => .ok (.default, [missingConfigEntry (plainName path)])

/-- An empty name asks for no file. -/
def settings? (config : Option String) (file : FileState) :
    Except Stop (Config.Loaded × List LogEntry) :=
  match config with
  | none => .ok (.default, [])
  | some path => if path.isEmpty then .ok (.default, []) else fileSettings? path file

/-- The program that a file holds. -/
def program? (path : String) : FileState → Except Stop (Program Float)
  | .contents bytes => .ok (.parseBytes bytes)
  | .nullInName => .error (.failure .nullInName)
  | file => .error (.exit 1 s!"cannot read {path}: {file.refusal path}")

/-- The time of a program under the options of the request. -/
def estimate? (r : Request) (c : Config.Loaded) (p : Program Float) : Except Stop Calculation :=
  (p.estimate? c.given r.pierceTime r.speed).mapError .ofEstimateFault

/-- The report, which counts the points of the connected replay. -/
def report? (r : Request) (c : Config.Loaded) (p : Program Float) (calculation : Calculation) :
    Except Stop String := do
  let points ← (replayLength? p.moves c.arcSamples).mapError fun f => .failure (.replay f)
  (Report.render? p calculation r.reference (some points)).mapError .ofValueFault

/-- The answer of a run that has written a log and then came to a report or to a stop. -/
def finish (verbose : Bool) (log : List LogEntry) : Except Stop String → Outcome
  | .ok report => ⟨report ++ "\n", logText verbose log, .status 0⟩
  | .error (.exit code reason) => ⟨"", logText verbose log ++ s!"error: {reason}\n", .status code⟩
  | .error (.failure f) => ⟨"", logText verbose log, .failure f⟩

/-- The answer for a program that has been read. -/
def respondTo (r : Request) (c : Config.Loaded) (log : List LogEntry) (p : Program Float) :
    Outcome :=
  let log := log ++ programLog p
  match estimate? r c p with
  | .error stop => finish r.verbose log (.error stop)
  | .ok calculation =>
    match estimateEntry? p calculation with
    | .error f => finish r.verbose log (.error (.failure (.arithmetic f)))
    | .ok entry => finish r.verbose (log ++ [entry]) (report? r c p calculation)

def respond (r : Request) (configFile programFile : FileState) : Outcome :=
  match settings? r.config configFile with
  | .error stop => finish r.verbose [] (.error stop)
  | .ok (c, log) =>
    match program? r.path programFile with
    | .error stop => finish r.verbose log (.error stop)
    | .ok p => respondTo r c log p

end Run

end Waterjet.Cli
