import Waterjet.Json.Basic

/-!
Texts inside JSON. Escapes stand for code units, and a high surrogate with a low one behind it
makes one character.
-/
namespace Waterjet.Json

def hexValue? (c : Char) : Option Nat :=
  if c.isDigit then some (c.toNat - 0x30)
  else if 'a' ≤ c && c ≤ 'f' then some (c.toNat - 0x61 + 10)
  else if 'A' ≤ c && c ≤ 'F' then some (c.toNat - 0x41 + 10)
  else none

def codeUnit? (a b c d : Char) : Option Nat := do
  let a ← hexValue? a
  let b ← hexValue? b
  let c ← hexValue? c
  let d ← hexValue? d
  pure (((a * 16 + b) * 16 + c) * 16 + d)

/-- The character of an escape with a letter. -/
def plainEscape? : Char → Option Nat
  | '\x22' => some 0x22
  | '\\' => some 0x5C
  | '/' => some 0x2F
  | 'b' => some 0x08
  | 'f' => some 0x0C
  | 'n' => some 0x0A
  | 'r' => some 0x0D
  | 't' => some 0x09
  | _ => none

/-- Put a code unit in front of what the rest of the text gave. -/
def consUnit (unit : Nat) (result : Except Fault (List Nat × List Char)) :
    Except Fault (List Nat × List Char) :=
  result.map fun (units, rest) => (unit :: units, rest)

/-- The code units up to the closing quote, and what follows it. `opening` is the number of
characters left at the opening quote. An escape with four digits needs a character behind it. -/
def readUnits (opening : Nat) : List Char → Except Fault (List Nat × List Char)
  | [] => .error (.malformed .unterminatedText opening)
  | '\x22' :: rest => .ok ([], rest)
  | '\\' :: 'u' :: a :: b :: c :: d :: e :: rest =>
    match codeUnit? a b c d with
    | some unit => consUnit unit (readUnits opening (e :: rest))
    | none => .error (.malformed .badCodeEscape (rest.length + 6))
  | '\\' :: 'u' :: rest => .error (.malformed .badCodeEscape (rest.length + 1))
  | '\\' :: c :: rest =>
    match plainEscape? c with
    | some unit => consUnit unit (readUnits opening rest)
    | none => .error (.malformed .badEscape (rest.length + 2))
  | c :: rest =>
    if c == '\\' then .error (.malformed .unterminatedText opening)
    else if c.toNat < 0x20 then .error (.malformed .controlCharacter (rest.length + 1))
    else consUnit c.toNat (readUnits opening rest)

def isHighSurrogate (unit : Nat) : Bool := 0xD800 ≤ unit && unit < 0xDC00

def isLowSurrogate (unit : Nat) : Bool := 0xDC00 ≤ unit && unit < 0xE000

/-- Code units as characters; a surrogate without its partner becomes a replacement character. -/
def joinUnits : List Nat → List Char
  | [] => []
  | [unit] => [character unit]
  | high :: low :: rest =>
    if isHighSurrogate high && isLowSurrogate low then
      Char.ofNat (0x10000 + (high - 0xD800) * 0x400 + (low - 0xDC00)) :: joinUnits rest
    else character high :: joinUnits (low :: rest)
where
  character (unit : Nat) : Char :=
    Char.ofNat (if isHighSurrogate unit || isLowSurrogate unit then 0xFFFD else unit)

/-- A text after its opening quote. -/
def readText (rest : List Char) : Except Fault (String × List Char) :=
  (readUnits (rest.length + 1) rest).map fun (units, rest) =>
    (String.ofList (joinUnits units), rest)

end Waterjet.Json
