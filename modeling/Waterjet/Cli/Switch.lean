import Waterjet.Text.Digit
import Waterjet.Text.Quoted

/-!
The switches of the command line, and how one argument looks by itself: a plain argument, the
separator, or a switch with or without a value attached. A long name may be cut short while it
stays unique.
-/
namespace Waterjet.Cli

open Text

inductive Switch where
  | help
  | config
  | pierceTime
  | speed
  | reference
  | verbose
  deriving DecidableEq

/-- Every name with its switch, in the order in which messages list them. -/
def switchNames : List (String × Switch) :=
  [ ("-h", .help), ("--help", .help), ("--config", .config), ("--pierce-time", .pierceTime),
    ("--speed", .speed), ("--reference", .reference), ("-v", .verbose), ("--verbose", .verbose) ]

namespace Switch

def named? (name : String) : Option Switch := switchNames.lookup name

/-- All names of a switch. -/
def label (s : Switch) : String :=
  "/".intercalate ((switchNames.filter fun entry => entry.2 == s).map (·.1))

def takesValue : Switch → Bool
  | .help => false
  | .verbose => false
  | _ => true

end Switch

/-- What stands behind the name of a switch in the same argument: nothing, a value behind the
equals sign of a long name, or text behind a short name, with or without an equals sign. -/
inductive Attached where
  | none
  | value (text : List Char)
  | tail (text : List Char)
  deriving DecidableEq

inductive Item where
  | plain (argument : String)
  | separator
  | unknown (argument : String)
  | switch (s : Switch) (attached : Attached)
  deriving DecidableEq

inductive UsageFault where
  | ambiguous (argument : String) (candidates : List String)
  | ignoredValue (s : Switch) (value : String)
  | expectedValue (s : Switch)
  | notNumber (s : Switch) (value : String)
  | missingPath
  | unrecognized (arguments : List String)
  deriving DecidableEq

def UsageFault.message : UsageFault → String
  | .ambiguous argument candidates =>
    "ambiguous option: " ++ argument ++ " could match " ++ ", ".intercalate candidates
  | .ignoredValue s value => s!"argument {s.label}: ignored explicit argument {quoted value}"
  | .expectedValue s => s!"argument {s.label}: expected one argument"
  | .notNumber s value => s!"argument {s.label}: invalid float value: {quoted value}"
  | .missingPath => "the following arguments are required: path"
  | .unrecognized arguments => "unrecognized arguments: " ++ " ".intercalate arguments

/-- Digits with at most one point and one behind it, after a minus sign. A line feed at the very
end does not count. -/
def isNegativeNumber (cs : List Char) : Bool :=
  match cs with
  | '-' :: rest =>
    let body := if rest.getLast? = some '\n' then rest.dropLast else rest
    match body.dropWhile isDigit with
    | [] => !body.isEmpty
    | '.' :: digits => !digits.isEmpty && digits.all isDigit
    | _ => false
  | _ => false

/-- The part before the first equals sign, and what follows the sign if there is one. -/
def splitEquals (cs : List Char) : List Char × Option (List Char) :=
  match cs.dropWhile (· != '=') with
  | [] => (cs, none)
  | _ :: value => (cs.takeWhile (· != '='), some value)

/-- The names that a long name may stand for. -/
def completions (start : List Char) : List (String × Switch) :=
  switchNames.filter fun entry => start.isPrefixOf entry.1.toList

/-- An argument with two dashes in front that is no full name. -/
def completeLong? (argument : String) (name : List Char) (value : Option (List Char)) :
    Except UsageFault (Option Item) :=
  match completions name with
  | [] => .ok none
  | [(_, s)] => .ok (some (.switch s ((value.map .value).getD .none)))
  | several => .error (.ambiguous argument (several.map (·.1)))

/-- A short name with text right behind it. -/
def shortItem? (cs : List Char) : Option Item :=
  (Switch.named? (String.ofList (cs.take 2))).map fun s => .switch s (.tail (cs.drop 2))

/-- An argument with a dash in front that names no switch. -/
def unnamedItem (argument : String) : Item :=
  let cs := argument.toList
  if isNegativeNumber cs || cs.contains ' ' then .plain argument else .unknown argument

/-- A full name before an equals sign. -/
def attachedItem? (name : List Char) (value : Option (List Char)) : Option Item := do
  let value ← value
  let s ← Switch.named? (String.ofList name)
  pure (.switch s (if ['-', '-'].isPrefixOf name then .value value else .tail value))

/-- How an argument before the separator looks. -/
def Item.ofArgument? (argument : String) : Except UsageFault Item := do
  let cs := argument.toList
  if cs.head? != some '-' || cs.length == 1 then return .plain argument
  if let some s := Switch.named? argument then return .switch s .none
  let (name, value) := splitEquals cs
  if let some item := attachedItem? name value then return item
  let found ←
    if ['-', '-'].isPrefixOf cs then completeLong? argument name value
    else pure (shortItem? cs)
  return found.getD (unnamedItem argument)

/-- The argument that separates switches from plain arguments. -/
def separatorText : String := "--"

/-- Every argument after the separator is plain. -/
def items? : List String → Except UsageFault (List Item)
  | [] => .ok []
  | argument :: rest =>
    if argument == separatorText then .ok (.separator :: rest.map .plain)
    else do
      let item ← Item.ofArgument? argument
      let items ← items? rest
      pure (item :: items)

end Waterjet.Cli
