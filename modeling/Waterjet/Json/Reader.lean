import Waterjet.Json.Numeral
import Waterjet.Json.Text

/-!
Reading JSON. The reader also takes the words for infinity and for what is not a number. A fault
is reported at the first character that cannot stand where it stands. Containers may be nested only
so deep, which is checked at the opening bracket of each.
-/
namespace Waterjet.Json

open Number

def isSpace (c : Char) : Bool := c == ' ' || c == '\t' || c == '\n' || c == '\r'

def skipSpace (cs : List Char) : List Char := cs.dropWhile isSpace

def fail {β : Type} (cause : Cause) (rest : List Char) : Except Fault β :=
  .error (.malformed cause rest.length)

/-- The words that stand for a value. -/
def keywords : List (List Char × Json) :=
  [ ("null".toList, .null),
    ("true".toList, .bool true),
    ("false".toList, .bool false),
    ("NaN".toList, .double nan),
    ("Infinity".toList, .double (infinity false)),
    ("-Infinity".toList, .double (infinity true)) ]

def readKeyword? (cs : List Char) : Option (Json × List Char) :=
  keywords.findSome? fun (word, value) =>
    if word.isPrefixOf cs then some (value, cs.drop word.length) else none

/-- A value that holds no other value, apart from texts. -/
def readAtom (cs : List Char) : Except Fault (Json × List Char) :=
  match readKeyword? cs with
  | some result => .ok result
  | none =>
    match readNumeral? cs with
    | some result => result
    | none => fail .expectingValue cs

mutual

/-- The value at the front of the text, in which containers may be nested up to `depth`. Every step
uses up some fuel, and twice the length of the text is more than enough. -/
def readValue : Nat → Nat → List Char → Except Fault (Json × List Char)
  | 0, _, cs => fail .expectingValue cs
  | fuel + 1, depth, cs =>
    match cs, depth with
    | '\x22' :: rest, _ => (readText rest).map fun (s, rest) => (.text s, rest)
    | '[' :: _, 0 => .error (.tooDeep .array)
    | '[' :: rest, depth + 1 =>
      match skipSpace rest with
      | ']' :: rest => .ok (.array [], rest)
      | rest => (readElements fuel depth rest).map fun (values, rest) => (.array values, rest)
    | '\x7b' :: _, 0 => .error (.tooDeep .object)
    | '\x7b' :: rest, depth + 1 =>
      match skipSpace rest with
      | '\x7d' :: rest => .ok (.object [], rest)
      | rest => (readMembers fuel depth rest).map fun (members, rest) => (.object members, rest)
    | cs, _ => readAtom cs

/-- The elements of an array from one of them to the closing bracket. -/
def readElements : Nat → Nat → List Char → Except Fault (List Json × List Char)
  | 0, _, cs => fail .expectingValue cs
  | fuel + 1, depth, cs => do
    let (value, rest) ← readValue fuel depth cs
    match skipSpace rest with
    | ']' :: rest => pure ([value], rest)
    | ',' :: rest =>
      let (values, rest) ← readElements fuel depth (skipSpace rest)
      pure (value :: values, rest)
    | rest => fail .expectingComma rest

/-- The members of an object from the name of one of them to the closing brace. -/
def readMembers : Nat → Nat → List Char → Except Fault (List (String × Json) × List Char)
  | 0, _, cs => fail .expectingName cs
  | fuel + 1, depth, cs =>
    match cs with
    | '\x22' :: rest => do
      let (name, rest) ← readText rest
      match skipSpace rest with
      | ':' :: rest =>
        let (value, rest) ← readValue fuel depth (skipSpace rest)
        match skipSpace rest with
        | '\x7d' :: rest => pure ([(name, value)], rest)
        | ',' :: rest =>
          let (members, rest) ← readMembers fuel depth (skipSpace rest)
          pure ((name, value) :: members, rest)
        | rest => fail .expectingComma rest
      | rest => fail .expectingColon rest
    | cs => fail .expectingName cs

end

/-- The one value that a whole text holds. So many containers may be open within the outermost. -/
def read? (nesting : Nat) (cs : List Char) : Except Fault Json :=
  if cs.head? = some (Char.ofNat 0xFEFF) then fail .byteOrderMark cs
  else do
    let (value, rest) ← readValue (2 * cs.length + 2) (nesting + 1) (skipSpace cs)
    match skipSpace rest with
    | [] => pure value
    | rest => fail .extraData rest

end Waterjet.Json
