import Mathlib.Data.List.Forall2
import Waterjet.Host.Standard
import Waterjet.Proofs.Pieces
import Waterjet.Proofs.Verdict

/-! A text behind another one. If the first is empty or its last line is ended, no line of the two
is merged, lost or cut: the lines of the second only move down, so their verdicts stay, their moves
and measures go on from where the first text ended, and their diagnostics bear the new numbers. -/
namespace Waterjet
open Scalar Nc Text

theorem Text.physicalLines_append {a : List Char} (h : a = [] ∨ a.getLast? = some '\n')
    (b : List Char) : physicalLines (a ++ b) = physicalLines a ++ physicalLines b := by
  have hsplit (cs : List Char) : cs.splitOnP (· == '\n') = cs.splitOn '\n' := rfl
  rcases h with rfl | h
  · rfl
  · obtain ⟨a', rfl⟩ := List.getLast?_eq_some_iff.mp h
    -- The line feed at the end of `a` divides the segments of `a'` from those of what follows.
    have hboth : (a' ++ ['\n'] ++ b).splitOn '\n' = a'.splitOn '\n' ++ b.splitOn '\n' := by
      rw [List.append_assoc, List.singleton_append, List.splitOn_append_cons_self]
    have hfirst : (a' ++ ['\n']).splitOn '\n' = a'.splitOn '\n' ++ [[]] :=
      List.splitOn_append_cons_self a' []
    have hne : b.splitOn '\n' ≠ [] := List.splitOn_ne_nil '\n' b
    unfold physicalLines
    dsimp only
    rw [hsplit, hsplit, hsplit, hboth, hfirst, List.getLast?_append_of_ne_nil _ hne,
      List.getLast?_concat, if_pos rfl, List.dropLast_concat]
    by_cases hlast : (b.splitOn '\n').getLast? = some []
    · rw [if_pos hlast, if_pos hlast, List.dropLast_append_of_ne_nil hne]
    · rw [if_neg hlast, if_neg hlast]

namespace Nc

/-- The line, `k` lines further down. -/
def Line.shift (k : Nat) (line : Line) : Line := { line with number := line.number + k }

theorem lineOf_add (n : Int) (k : Nat) (piece : List Char) :
    lineOf (n + k) piece = (lineOf n piece).shift k := by
  have hnumber : (lineOf n piece).number = n := number_lineOf n piece
  rw [Line.shift, hnumber]
  exact classify_eq (n + k) n _

theorem lines_append {a : String} (h : a = "" ∨ a.toList.getLast? = some '\n') (b : String) :
    lines (a ++ b) = lines a ++ (lines b).map (Line.shift (lines a).length) := by
  have ha : a.toList = [] ∨ a.toList.getLast? = some '\n' :=
    h.imp_left fun hempty => by rw [hempty]; rfl
  have hlength : (lines a).length = (physicalLines a.toList).length := by
    rw [lines_eq_map, List.length_map, List.length_zipIdx]
  rw [lines_eq_map, lines_eq_map b, String.toList_append, physicalLines_append ha,
    List.zipIdx_append, List.map_append, ← lines_eq_map, ← hlength, List.map_map]
  refine congrArg (lines a ++ ·) ?_
  rw [List.zipIdx_eq_map_add, List.zipIdx_eq_map_add (i := 1), List.map_map, List.map_map]
  apply List.map_congr_left
  rintro ⟨piece, n⟩ -
  dsimp only [Function.comp_apply]
  have hnumber : ((1 + (lines a).length + n : Nat) : Int) = (1 + n : Nat) + (lines a).length := by
    omega
  rw [← lineOf_add, hnumber]

section Shift

variable {α : Type} [Scalar α]

theorem Line.motion?_shift (k : Nat) (line : Line) :
    ((line.shift k).motion? : Option (Motion α)) = line.motion? := motion?_congr rfl rfl

theorem motions_map_shift (k : Nat) (lines : List Line) :
    (motions (lines.map (Line.shift k)) : List (Motion α)) = motions lines := by
  rw [motions, motions, List.filterMap_map]
  exact List.filterMap_congr fun line _ => line.motion?_shift k

end Shift

end Nc

/-- The same report for a line `k` lines further down, the number in the message included. -/
structure Diagnostic.MovedDown (k : Nat) (d e : Diagnostic) : Prop where
  line : e.line = d.line + k
  text : e.text = d.text
  message : ∃ letter word, d.message = MalformedWord.message ⟨d.line, letter, word⟩ ∧
    e.message = MalformedWord.message ⟨e.line, letter, word⟩

namespace Nc

theorem Line.fault?_shift (k : Nat) (line : Line) :
    (line.shift k).fault? = line.fault?.map fun m => { m with line := m.line + k } := by
  unfold fault?
  rw [Option.map_map]
  rfl

theorem Line.diagnostic?_shift (k : Nat) (line : Line) :
    Option.Rel (Diagnostic.MovedDown k) line.diagnostic? (line.shift k).diagnostic? := by
  have hkind : (line.shift k).isCommand = line.isCommand := rfl
  unfold diagnostic?
  rw [hkind, fault?_shift]
  cases line.isCommand with
  | false => exact .none
  | true =>
    cases hfault : line.fault? with
    | none => exact .none
    | some m =>
      obtain ⟨letter, -, rfl⟩ := Option.map_eq_some_iff.mp hfault
      exact .some ⟨rfl, rfl, _, _, rfl, rfl⟩

theorem forall₂_notes_shift (k : Nat) (lines : List Line) :
    List.Forall₂ (Diagnostic.MovedDown k) (notes lines) (notes (lines.map (Line.shift k))) := by
  have hlines : List.Forall₂ (fun a b => b = Line.shift k a) lines (lines.map (Line.shift k)) := by
    rw [List.forall₂_map_right_iff, List.forall₂_same]
    exact fun _ _ => rfl
  refine List.rel_filterMap ?_ hlines
  rintro line _ rfl
  exact line.diagnostic?_shift k

end Nc

variable {α : Type} [Scalar α]

namespace Program

/-- The moves that the interpreter makes of the lines of `b` where it stands after those of `a`. -/
def movesBehind (α : Type) [Scalar α] (a b : String) : List (Move α) :=
  (Reader.start.run (lines a)).modal.follow (parse a : Program α).moves.length (lines b)

/-- What comes of a text `a` with a text `b` behind it. -/
structure Appends (α : Type) [Scalar α] (a b : String) : Prop where
  lines : lines (a ++ b) = Nc.lines a ++ (Nc.lines b).map (Line.shift (Nc.lines a).length)
  verdicts : ∀ line ∈ Nc.lines b, line.isCommand = true → ∀ (s t : Modal α) (m n : Int),
    Verdict.ofResult (s.interpretLine? (line.shift (Nc.lines a).length) m) =
      Verdict.ofResult (t.interpretLine? line n)
  moves : (parse (a ++ b) : Program α).moves = (parse a).moves ++ movesBehind α a b
  tally : (Reader.start.run (Nc.lines (a ++ b)) : Reader α).tally =
    (movesBehind α a b).foldl Tally.add (Reader.start.run (Nc.lines a)).tally
  program : ∃ later,
    List.Forall₂ (Diagnostic.MovedDown (Nc.lines a).length) (parse b : Program α).diagnostics later ∧
      parse (a ++ b) = Program.ofTally (Reader.start.run (Nc.lines (a ++ b)) : Reader α).tally
        ((parse a : Program α).diagnostics ++ later)

/-- Programs can be put together. Behind a text that is empty or ends with a line feed, every other
text goes on from the state, the numbers and the measures that the first has come to, and changes
nothing of what it gave. -/
theorem parse_append {a : String} (h : a = "" ∨ a.toList.getLast? = some '\n') (b : String) :
    Appends α a b := by
  have hlines := lines_append h b
  have hrun : (Reader.start.run (lines (a ++ b)) : Reader α) =
      (Reader.start.run (lines a)).run ((lines b).map (Line.shift (lines a).length)) := by
    rw [hlines, Reader.run, List.foldl_append]
    rfl
  have hsize : (Reader.start.run (lines a) : Reader α).tally.moves.size =
      (parse a : Program α).moves.length := Array.length_toList.symm
  have hmoves : movesBehind α a b = (Reader.start.run (lines a) : Reader α).modal.course
      (Reader.start.run (lines a) : Reader α).tally.moves.size (motions (lines b)) := by
    rw [movesBehind, Modal.follow_eq_course, hsize]
  have htally : (Reader.start.run (lines (a ++ b)) : Reader α).tally =
      (movesBehind α a b).foldl Tally.add (Reader.start.run (lines a)).tally := by
    rw [hrun, Reader.run_eq, motions_map_shift, hmoves]
  have hdiagnostics : (Reader.start.run (lines (a ++ b)) : Reader α).diagnostics.toList =
      (parse a : Program α).diagnostics ++ notes ((lines b).map (Line.shift (lines a).length)) := by
    rw [hrun, Reader.run_eq, Array.toList_append]
    rfl
  refine ⟨hlines, ?_, ?_, htally, ?_⟩
  · intro line _ hcommand s t m n
    have hshift : (line.shift (lines a).length).isCommand = true := hcommand
    rw [s.ofResult_interpretLine? hshift m, t.ofResult_interpretLine? hcommand n]
    rfl
  · change (Reader.start.run (lines (a ++ b)) : Reader α).tally.moves.toList = _
    rw [htally, Tally.toList_moves_foldl]
    rfl
  · refine ⟨notes ((lines b).map (Line.shift (lines a).length)), ?_, ?_⟩
    · rw [diagnostics_parse]
      exact forall₂_notes_shift _ _
    · rw [← hdiagnostics]
      rfl

/-- The first text ends in a malformed line; the second has one too, an arc that goes on from the
first text, and a last line without an end. -/
theorem parse_append_at_malformed :
    letI : Host := .standard
    let a := "G01 X1 Y2 F100\r\nG01 X\n"
    let b := "M30\nG02 X2 Yq\n\nG03 X5 I1 J2"
    (a = "" ∨ a.toList.getLast? = some '\n') ∧ Appends Float a b ∧
      (movesBehind Float a b).length = 1 ∧ (parse (a ++ b) : Program Float).diagnostics.length = 2 := by
  let host : Host := .standard
  intro a b
  have ha : a = "" ∨ a.toList.getLast? = some '\n' := by decide +kernel
  exact ⟨ha, parse_append ha b, by decide +kernel, by decide +kernel⟩

end Program

end Waterjet
