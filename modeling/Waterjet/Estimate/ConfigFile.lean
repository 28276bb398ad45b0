import Waterjet.Estimate.Config
import Waterjet.Host
import Waterjet.Json.Reader
import Waterjet.Text.Utf8

/-!
Configuration files. A file holds one JSON object; settings that it leaves out keep their
defaults, and each value is turned into a number if it can be read as one.
-/
namespace Waterjet

open Number

/-- A value that is no number of the wanted kind. -/
inductive ConversionFault where
  | notDouble (text : String)
  | notInteger (text : String)
  | tooManyDigits (count : Nat)
  | noDoubleFrom (kind : String)
  | noIntegerFrom (kind : String)
  | nanToInteger
  deriving DecidableEq

/-- A quoted text is cut to this length where it stands for an integer. -/
def shownIntegerText : Nat := 200

def ConversionFault.message : ConversionFault → String
  | .notDouble s => s!"could not convert string to float: {Text.quoted s}"
  | .notInteger s =>
    let shown := String.ofList ((Text.quotedChars s.toList).take shownIntegerText)
    s!"invalid literal for int() with base 10: {shown}"
  | .tooManyDigits count => tooManyDigitsMessage count
  | .noDoubleFrom kind => s!"float() argument must be a string or a real number, not '{kind}'"
  | .noIntegerFrom kind =>
    s!"int() argument must be a string, a bytes-like object or a real number, not '{kind}'"
  | .nanToInteger => Fault.nanToInteger.message

inductive LoadFault where
  | undecodable (f : Text.Utf8.Fault)
  | tooManyDigits (count : Nat)
  | tooDeep (c : Json.Container)
  | outOfRange (f : Fault)
  | unreadable (cause : Json.Cause) (place : Json.Place)
  | notObject
  | badValue (f : ConversionFault)
  | refused (f : ConfigFault)

def LoadFault.message (path : String) : LoadFault → String
  | .undecodable f => f.message
  | .tooManyDigits count => tooManyDigitsMessage count
  | .tooDeep c => c.tooDeepMessage
  | .outOfRange f => f.message
  | .unreadable cause place => s!"Cannot read config {path}: {cause.message}: {place.describe}"
  | .notObject => s!"Config {path} must contain a JSON object"
  | .badValue f => s!"Invalid value in config {path}: {f.message}"
  | .refused f => f.message

namespace Json

def kindName : Json → String
  | .null => "NoneType"
  | .bool _ => "bool"
  | .integer _ => "int"
  | .double _ => "float"
  | .text _ => "str"
  | .array _ => "list"
  | .object _ => "dict"

def toDouble? : Json → Except LoadFault Float
  | .bool b => .ok (if b then 1.0 else 0.0)
  | .integer n => (doubleOfInt? n).mapError .outOfRange
  | .double x => .ok x
  | .text s =>
    match double? s.toList with
    | some x => .ok x
    | none => .error (.badValue (.notDouble s))
  | v => .error (.badValue (.noDoubleFrom v.kindName))

/-- A double loses its fraction. -/
def toInteger? : Json → Except LoadFault Int
  | .bool b => .ok (if b then 1 else 0)
  | .integer n => .ok n
  | .double x =>
    match truncate? x with
    | .ok n => .ok n
    | .error .nanToInteger => .error (.badValue .nanToInteger)
    | .error f => .error (.outOfRange f)
  | .text s =>
    match integer? s.toList with
    | .ok n => .ok n
    | .error .malformed => .error (.badValue (.notInteger s))
    | .error (.tooManyDigits count) => .error (.badValue (.tooManyDigits count))
  | v => .error (.badValue (.noIntegerFrom v.kindName))

end Json

namespace Config

/-- A setting of a file, or its default where the file has none. -/
def setting? {β : Type} (members : List (String × Json)) (s : Setting) (otherwise : β)
    (convert : Json → Except LoadFault β) : Except LoadFault β :=
  match Json.member? members s.key with
  | some value => convert value
  | none => .ok otherwise

/-- The override may be null, which is the same as leaving it out. -/
def override? : Json → Except LoadFault (Option Float)
  | .null => .ok none
  | value => value.toDouble?.map some

def ofMembers? (members : List (String × Json)) : Except LoadFault Loaded := do
  let pierceTime ← setting? members .pierceTime default.pierceTime Json.toDouble?
  let fallbackSpeed ← setting? members .fallbackSpeed default.fallbackSpeed Json.toDouble?
  let speedOverride ← setting? members .speedOverride default.speedOverride override?
  let arcSamples ← setting? members .arcSamples default.arcSamples Json.toInteger?
  let config : Loaded := { pierceTime, fallbackSpeed, speedOverride, arcSamples }
  config.given.check.mapError .refused
  pure config

section Reader

variable [Host]

def readJson? (text : List Char) : Except LoadFault Json :=
  match Json.read? Host.nesting text with
  | .ok value => .ok value
  | .error (.tooManyDigits count) => .error (.tooManyDigits count)
  | .error (.tooDeep c) => .error (.tooDeep c)
  | .error (.malformed cause remaining) => .error (.unreadable cause (Json.place text remaining))

def ofText? (text : List Char) : Except LoadFault Loaded := do
  match ← readJson? text with
  | .object members => ofMembers? members
  | _ => .error .notObject

/-- The file must be UTF-8 throughout. -/
def load? (bytes : List UInt8) : Except LoadFault Loaded := do
  let text ← (Text.Utf8.decode? bytes).mapError .undecodable
  ofText? (Text.unifyLineEnds text)

end Reader

end Config

/-- A double as a file spells it. -/
def fileDouble (x : Float) : String :=
  match decode x with
  | .nan => "NaN"
  | .infinite negative => if negative then "-Infinity" else "Infinity"
  | .finite _ => shortest x

/-- A setting's value as a file spells it. -/
def Value.fileText : Value → String
  | .number (.integer n) => written n
  | .number (.double x) => fileDouble x
  | .flag b => if b then "true" else "false"
  | .text s => Text.quoted s
  | .absent => "null"
  | .emptyList => "[]"

/-- The file that holds the settings, one to a line. -/
def Config.fileText (c : Config.Given) : String :=
  let line (s : Setting) (v : Value) : String := "  \x22" ++ s.key ++ "\x22: " ++ v.fileText
  let settings :=
    [ line .pierceTime c.pierceTime,
      line .fallbackSpeed c.fallbackSpeed,
      line .speedOverride (c.speedOverride.getD .absent),
      line .arcSamples c.arcSamples ]
  "\x7b\n" ++ ",\n".intercalate settings ++ "\n\x7d"

end Waterjet
