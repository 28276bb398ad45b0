import Waterjet.Cli.Usage
import Waterjet.Host.Standard

/-!
The command: it looks up the two files that the request names, writes the answer, and ends with
its status.
-/
namespace Waterjet.Cli

/-- The system's number of an error, which is negated where a library has looked up the name. -/
def errorNumber (code : UInt32) : Nat := if code < 0x80000000 then code.toNat else (-code).toNat

/-- The number and the text of an error of the system. -/
def systemError : IO.Error → Nat × String
  | .alreadyExists _ code reason | .interrupted _ code reason | .inappropriateType _ code reason
  | .invalidArgument _ code reason | .noFileOrDirectory _ code reason | .noSuchThing _ code reason
  | .permissionDenied _ code reason | .resourceExhausted _ code reason
  | .hardwareFault code reason | .illegalOperation code reason | .otherError code reason
  | .protocolError code reason | .resourceBusy code reason | .resourceVanished code reason
  | .timeExpired code reason | .unsatisfiedConstraints code reason
  | .unsupportedOperation code reason => (errorNumber code, reason.capitalize)
  | .unexpectedEof => (0, "end of file")
  | .userError reason => (0, reason)

/-- What a name leads to in the file system. -/
def lookUp (name : String) : IO FileState := do
  if let some state := unusableName? name then return state
  try
    return .contents (← IO.FS.readBinFile (plainName name)).toList
  catch error =>
    let (code, reason) := systemError error
    return .ofError code reason

def answer (arguments : List String) : IO Outcome := do
  match Request.ofArguments? arguments with
  | .error halt => return halt.outcome
  | .ok request =>
    let configFile ← lookUp (request.config.getD "")
    letI : Host := .standard
    return respond request configFile (← lookUp request.path)

def Ending.code : Ending → UInt32
  | .status code => code.toUInt32
  | .failure _ => 1

def Ending.lastWords : Ending → String
  | .status _ => ""
  | .failure f => f.message ++ "\n"

end Waterjet.Cli

def main (arguments : List String) : IO UInt32 := do
  let outcome ← Waterjet.Cli.answer arguments
  IO.print outcome.stdout
  IO.eprint (outcome.stderr ++ outcome.ending.lastWords)
  return outcome.ending.code
