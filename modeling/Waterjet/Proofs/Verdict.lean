import Waterjet.Proofs.Course

/-! What a command line comes to. Its words alone decide whether it is malformed, a motion or
neither, and the interpreter gives that verdict in every state. The moves of lines in a row follow
from the interpreter line by line. -/
namespace Waterjet
open Scalar Nc Number

inductive Nc.Verdict where
  | malformed
  | motion
  | idle
  deriving DecidableEq

namespace Nc

/-- The first of the words that begins with a letter. -/
def wordOf? (words : List String) (letter : Char) : Option String :=
  words.find? fun word => word.toList.head? == some letter

/-- The first word of the letter does not go on with a number. -/
def misread (words : List String) (letter : Char) : Bool :=
  (wordOf? words letter).any fun word => (wordNumber? word).isNone

/-- The preparatory code is that of a motion. -/
def codesMotion (α : Type) [Scalar α] (words : List String) : Bool :=
  ((wordOf? words 'G').bind wordNumber?).any fun code =>
    [0, 1, 2, 3].any fun (n : Nat) => (ofDecimal code : α) == (n : α)

def verdict (α : Type) [Scalar α] (words : List String) : Verdict :=
  if fieldLetters.any (misread words) then .malformed
  else if codesMotion α words then .motion
  else .idle

namespace Line

theorem misread_words (line : Line) (letter : Char) :
    misread line.words letter = !line.reads letter := by
  have hword : wordOf? line.words letter = line.word? letter := rfl
  unfold misread reads
  rw [hword]
  cases line.word? letter with
  | none => rfl
  | some word => cases h : wordNumber? word <;> simp [h]

theorem isSome_fault? (line : Line) :
    line.fault?.isSome = fieldLetters.any (misread line.words) := by
  have hmisread : misread line.words = fun letter => !line.reads letter :=
    funext line.misread_words
  rw [fault?, Option.isSome_map, hmisread, Bool.eq_iff_iff, List.find?_isSome, List.any_eq_true]

end Line

variable {α : Type} [Scalar α]

/-- The motion of a command line with nothing wrong is that of its fields. -/
theorem codesMotion_words (line : Line) :
    codesMotion α line.words = (line.fields : Fields α).motion?.isSome := by
  have hcode : (line.fields : Fields α).g =
      ((wordOf? line.words 'G').bind wordNumber?).map ofDecimal := rfl
  rw [Fields.isSome_motion?, hcode, Option.any_map]
  rfl

end Nc

variable {α : Type} [Scalar α]

/-- The verdict that a result of the interpreter gives. -/
def Nc.Verdict.ofResult : Except MalformedWord (Modal α × Option (Move α)) → Verdict
  | .error _ => .malformed
  | .ok (_, some _) => .motion
  | .ok (_, none) => .idle

namespace Modal

/-- Neither the state nor the number of the move has a say in the verdict. -/
theorem ofResult_interpretLine? (s : Modal α) {line : Line} (h : line.isCommand = true) (n : Int) :
    Verdict.ofResult (s.interpretLine? line n) = verdict α line.words := by
  unfold verdict
  rw [← line.isSome_fault?, codesMotion_words]
  obtain ⟨m, hf, -, hs⟩ | ⟨m, hf, hm, hs⟩ | ⟨hf, hm, hs⟩ := s.interpretLine?_cases h n
  · rw [hs, hf]
    rfl
  · rw [← Line.motion?_of_command h hf, hs, hf, hm]
    rfl
  · rw [← Line.motion?_of_command h hf, hs, hf, hm]
    rfl

/-- The moves that the interpreter makes of lines in a row, numbered from `n`. Lines that are
malformed or no commands are passed over. -/
def follow (s : Modal α) (n : Nat) : List Line → List (Move α)
  | [] => []
  | line :: lines =>
    if line.isCommand then
      match s.interpretLine? line n with
      | .error _ => s.follow n lines
      | .ok (s', none) => s'.follow n lines
      | .ok (s', some move) => move :: s'.follow (n + 1) lines
    else s.follow n lines

theorem follow_eq_course (s : Modal α) (n : Nat) (lines : List Line) :
    s.follow n lines = s.course n (motions lines) := by
  induction lines generalizing s n with
  | nil => rfl
  | cons line lines ih =>
    rw [follow]
    by_cases hcommand : line.isCommand = true
    · rw [if_pos hcommand]
      obtain ⟨m, -, hm, hs⟩ | ⟨m, -, hm, hs⟩ | ⟨-, hm, hs⟩ := s.interpretLine?_cases hcommand n
      · rw [hs, motions_cons_of_none hm]
        exact ih s n
      · rw [hs, motions_cons_of_some hm, course]
        exact congrArg _ (ih (s.obey m) (n + 1))
      · rw [hs, motions_cons_of_none hm]
        exact ih s n
    · have hm : (line.motion? : Option (Motion α)) = none :=
        Line.motion?_of_not_command (Bool.eq_false_iff.mpr hcommand)
      rw [if_neg hcommand, motions_cons_of_none hm]
      exact ih s n

end Modal

/-- The path of a program is what the interpreter makes of its lines. -/
theorem Program.moves_parse_eq_follow (text : String) :
    (parse text : Program α).moves = Modal.start.follow 0 (lines text) := by
  rw [moves_parse, Modal.follow_eq_course]

end Waterjet
