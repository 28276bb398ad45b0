import Waterjet.Text.Quoted

/-!
Bytes read as UTF-8. Reading yields one piece for each character and one for each fault; a fault
covers the longest run of bytes that could have begun a character. A strict reader stops at the
first fault, a lenient one shows each fault as one replacement character.
-/
namespace Waterjet.Text.Utf8

inductive Cause where
  | invalidStart
  | invalidContinuation
  | unexpectedEnd
  deriving DecidableEq

structure Fault where
  cause : Cause
  position : Nat
  length : Nat
  first : Nat
  deriving DecidableEq

def Cause.message : Cause → String
  | .invalidStart => "invalid start byte"
  | .invalidContinuation => "invalid continuation byte"
  | .unexpectedEnd => "unexpected end of data"

def Fault.message (f : Fault) : String :=
  let place :=
    if f.length == 1 then
      s!"byte 0x{String.ofList (hexDigits 2 f.first)} in position {f.position}"
    else
      s!"bytes in position {f.position}-{f.position + f.length - 1}"
  s!"'utf-8' codec can't decode {place}: {f.cause.message}"

inductive Piece where
  | char (c : Char)
  | fault (f : Fault)
  deriving DecidableEq

/-- A character under way: its first byte, the number of bytes read and still missing, the bits
read so far, and the bounds of the next byte. -/
structure Pending where
  first : Nat
  seen : Nat
  missing : Nat
  code : Nat
  low : Nat
  high : Nat

/-- What the first byte of a longer character announces. The narrower bounds after E0, ED, F0 and
F4 rule out overlong forms, surrogates and code points beyond the last. -/
def lead? (b : Nat) : Option Pending :=
  if 0xC2 ≤ b && b ≤ 0xDF then some ⟨b, 1, 1, b - 0xC0, 0x80, 0xBF⟩
  else if b == 0xE0 then some ⟨b, 1, 2, 0, 0xA0, 0xBF⟩
  else if b == 0xED then some ⟨b, 1, 2, 0xD, 0x80, 0x9F⟩
  else if 0xE1 ≤ b && b ≤ 0xEF then some ⟨b, 1, 2, b - 0xE0, 0x80, 0xBF⟩
  else if b == 0xF0 then some ⟨b, 1, 3, 0, 0x90, 0xBF⟩
  else if 0xF1 ≤ b && b ≤ 0xF3 then some ⟨b, 1, 3, b - 0xF0, 0x80, 0xBF⟩
  else if b == 0xF4 then some ⟨b, 1, 3, 4, 0x80, 0x8F⟩
  else none

/-- The pieces found so far stand in reverse. -/
structure Reader where
  position : Nat
  pending : Option Pending
  found : List Piece

/-- Take a byte between two characters. -/
def Reader.begin (r : Reader) (b : Nat) : Reader :=
  if b < 0x80 then ⟨r.position + 1, none, .char (Char.ofNat b) :: r.found⟩
  else match lead? b with
    | some p => ⟨r.position + 1, some p, r.found⟩
    | none => ⟨r.position + 1, none, .fault ⟨.invalidStart, r.position, 1, b⟩ :: r.found⟩

def Reader.fail (r : Reader) (p : Pending) (cause : Cause) : Reader :=
  ⟨r.position, none, .fault ⟨cause, r.position - p.seen, p.seen, p.first⟩ :: r.found⟩

def Reader.step (r : Reader) (byte : UInt8) : Reader :=
  let b := byte.toNat
  match r.pending with
  | none => r.begin b
  | some p =>
    if p.low ≤ b && b ≤ p.high then
      let code := p.code * 64 + (b - 0x80)
      if p.missing ≤ 1 then ⟨r.position + 1, none, .char (Char.ofNat code) :: r.found⟩
      else ⟨r.position + 1, some ⟨p.first, p.seen + 1, p.missing - 1, code, 0x80, 0xBF⟩, r.found⟩
    else (r.fail p .invalidContinuation).begin b

def Reader.finish (r : Reader) : List Piece :=
  match r.pending with
  | none => r.found.reverse
  | some p => (r.fail p .unexpectedEnd).found.reverse

def pieces (bytes : List UInt8) : List Piece :=
  (bytes.foldl Reader.step ⟨0, none, []⟩).finish

def Piece.strict : Piece → Except Fault Char
  | .char c => .ok c
  | .fault f => .error f

def Piece.lenient : Piece → Char
  | .char c => c
  | .fault _ => Char.ofNat 0xFFFD

/-- The text, or the first fault. -/
def decode? (bytes : List UInt8) : Except Fault (List Char) :=
  (pieces bytes).mapM Piece.strict

/-- The text with a replacement character for each fault. -/
def decode (bytes : List UInt8) : List Char :=
  (pieces bytes).map Piece.lenient

end Waterjet.Text.Utf8
