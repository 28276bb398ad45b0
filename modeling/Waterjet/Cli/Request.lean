import Waterjet.Cli.Switch
import Waterjet.Estimate.Value
import Waterjet.Number.Literal

/-!
Reading the command line. Arguments act in their order, so a request for help answers before
anything behind it is looked at. One plain argument is the program's path; what is left over is
refused at the end.

A separator attached to a switch as its value gives the switch no value: the configuration is then
the default one, and a number is an empty list.
-/
namespace Waterjet.Cli

open Number

/-- What the command line asks for. -/
structure Request where
  path : String
  config : Option String
  pierceTime : Option Value
  speed : Option Value
  reference : Option Value
  verbose : Bool

/-- What the arguments have said so far. -/
structure Draft where
  path : Option String
  config : Option String
  pierceTime : Option Value
  speed : Option Value
  reference : Option Value
  verbose : Bool
  extras : List String

def Draft.empty : Draft := ⟨none, none, none, none, none, false, []⟩

/-- Why reading ends before the last argument. -/
inductive Halt where
  | help
  | misuse (f : UsageFault)

def Switch.number? (s : Switch) (value : String) : Except Halt Value :=
  if value == separatorText then .ok .emptyList
  else
    match double? value.toList with
    | some x => .ok (.double x)
    | none => .error (.misuse (.notNumber s value))

namespace Draft

def extra (d : Draft) (argument : String) : Draft := { d with extras := d.extras ++ [argument] }

/-- The first plain argument is the path. -/
def plain (d : Draft) (argument : String) : Draft :=
  match d.path with
  | none => { d with path := some argument }
  | some _ => d.extra argument

/-- Act on a switch with a value. Of several values for one switch the last counts. -/
def store? (d : Draft) (s : Switch) (value : String) : Except Halt Draft :=
  match s with
  | .config => .ok { d with config := if value == separatorText then none else some value }
  | .pierceTime => (s.number? value).map fun v => { d with pierceTime := some v }
  | .speed => (s.number? value).map fun v => { d with speed := some v }
  | .reference => (s.number? value).map fun v => { d with reference := some v }
  | .help => .error (.misuse (.ignoredValue s value))
  | .verbose => .error (.misuse (.ignoredValue s value))

/-- Act on a switch that takes no value. -/
def raise? (d : Draft) (s : Switch) : Except Halt Draft :=
  match s with
  | .help => .error .help
  | .verbose => .ok { d with verbose := true }
  | _ => .error (.misuse (.expectedValue s))

end Draft

/-- The switches in a row of short names, of which the first is `s`. Every letter behind it must
name one. -/
def shortRow? (s : Switch) : List Char → Except UsageFault (List Switch)
  | [] => .error (.ignoredValue s "")
  | c :: rest =>
    match Switch.named? (String.ofList ['-', c]) with
    | none => .error (.ignoredValue s (String.ofList (c :: rest)))
    | some next =>
      if rest.isEmpty then .ok [s, next] else (shortRow? next rest).map (s :: ·)

namespace Draft

/-- Act on a switch whose value, if it takes one, is attached. -/
def attached? (d : Draft) (s : Switch) : Attached → Except Halt Draft
  | .none => d.raise? s
  | .value text => d.store? s (String.ofList text)
  | .tail text => do
    let row ← (shortRow? s text).mapError .misuse
    row.foldlM raise? d

/-- A separator next to the path is dropped. -/
def read? (d : Draft) : List Item → Except Halt Draft
  | [] => .ok d
  | .plain argument :: .separator :: rest =>
    if d.path.isNone then (d.plain argument).read? rest
    else ((d.extra argument).extra separatorText).read? rest
  | .plain argument :: rest => (d.plain argument).read? rest
  | .separator :: rest => (if d.path.isNone then d else d.extra separatorText).read? rest
  | .unknown argument :: rest => (d.extra argument).read? rest
  | .switch s attached :: rest =>
    if attached == .none && s.takesValue then
      match rest with
      | .plain value :: rest => do
        let d ← d.store? s value
        d.read? rest
      | _ => .error (.misuse (.expectedValue s))
    else do
      let d ← d.attached? s attached
      d.read? rest

def finish? (d : Draft) : Except Halt Request :=
  match d.path with
  | none => .error (.misuse .missingPath)
  | some path =>
    if d.extras.isEmpty then
      .ok { path, config := d.config, pierceTime := d.pierceTime, speed := d.speed,
            reference := d.reference, verbose := d.verbose }
    else .error (.misuse (.unrecognized d.extras))

end Draft

/-- All arguments are sorted before any acts. -/
def Request.ofArguments? (arguments : List String) : Except Halt Request := do
  let items ← (items? arguments).mapError .misuse
  let d ← Draft.empty.read? items
  d.finish?

end Waterjet.Cli
