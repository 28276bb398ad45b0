import Waterjet.Host.Standard
import Waterjet.Proofs.Pieces

/-! Lines that are skipped. A blank line, a comment, a malformed line and a line that is no motion
command leave the path and its measures alone, so it makes no difference to them whether such lines
are emptied, removed or put in; emptying them takes their own diagnostics away and no others. -/
namespace Waterjet
open Scalar Nc

variable {α : Type} [Scalar α]

/-- The four reasons for which a line is skipped. -/
inductive Nc.Line.Skipped (α : Type) [Scalar α] (line : Line) : Prop where
  | blank (kind : line.kind = .blank)
  | comment (kind : line.kind = .comment)
  | malformed (kind : line.kind = .command) {m : MalformedWord}
      (fault : numbers? line.number line.words (fieldLetters.map letterName) = .error m)
  | noMotion (kind : line.kind = .command)
      (code : ∀ g : α, line.value? 'G' = some g →
        ∀ n ∈ [0, 1, 2, 3], (g == ((n : Nat) : α)) = false)

namespace Nc

theorem Line.skipped_iff (line : Line) :
    line.Skipped α ↔ (line.motion? : Option (Motion α)) = none := by
  have hmotion : (line.motion? : Option (Motion α)) = none ↔ line.isMotion α = false := by
    rw [← Line.isSome_motion?, Option.isSome_eq_false_iff, Option.isNone_iff_eq_none]
  rw [hmotion]
  constructor
  · intro h
    unfold isMotion
    cases h with
    | blank kind => simp [isCommand, kind]
    | comment kind => simp [isCommand, kind]
    | malformed kind fault =>
      rw [numbers?_eq] at fault
      cases hfault : line.fault? with
      | none => simp [hfault] at fault
      | some m =>
        have hreads : fieldLetters.all line.reads = false := by
          rw [Bool.eq_false_iff, Ne, ← fault?_eq_none_iff, hfault]
          exact Option.some_ne_none m
        simp [hreads]
    | noMotion kind code =>
      have hcode : (line.fields : Fields α).g.any
          (fun g => [0, 1, 2, 3].any fun (n : Nat) => g == (n : α)) = false := by
        cases hg : (line.fields : Fields α).g with
        | none => rfl
        | some g =>
          rw [Option.any_some, List.any_eq_false]
          intro n hn
          simp [code g hg n hn]
      rw [hcode, Bool.and_false]
  · intro h
    cases kind : line.kind with
    | blank => exact .blank kind
    | comment => exact .comment kind
    | command =>
      cases hfault : line.fault? with
      | some m => exact .malformed kind (by rw [numbers?_eq, hfault])
      | none =>
        refine .noMotion kind fun g hg n hn => ?_
        have hcommand : line.isCommand = true := by simp [isCommand, kind]
        have hreads := (fault?_eq_none_iff line).mp hfault
        have hfield : (line.fields : Fields α).g = some g := hg
        unfold isMotion at h
        rw [hcommand, hreads, hfield, Bool.true_and, Option.any_some, Bool.true_and,
          List.any_eq_false] at h
        exact Bool.eq_false_iff.mpr (h n hn)

/-- A text of skipped lines only has no motions. -/
theorem motions_eq_nil {ls : List Line} (h : ∀ line ∈ ls, line.Skipped α) :
    (motions ls : List (Motion α)) = [] :=
  List.filterMap_eq_nil_iff.mpr fun line hline => line.skipped_iff.mp (h line hline)

/-- The text with the hidden lines made empty. Lines are counted from one. -/
def blankLines (hidden : Int → Bool) (text : String) : String :=
  ofPieces <| ((pieces text).zipIdx 1).map fun (piece, n) => if hidden n then [] else piece

/-- The text without the hidden lines. -/
def deleteLines (hidden : Int → Bool) (text : String) : String :=
  ofPieces <| ((pieces text).zipIdx 1).flatMap fun (piece, n) => if hidden n then [] else [piece]

/-- The text with further lines in front of each of its lines and at its end. -/
def insertLines (extra : Int → List String) (text : String) : String :=
  ofPieces <|
    (((pieces text).zipIdx 1).flatMap fun (piece, n) => (extra n).map String.toList ++ [piece]) ++
      (extra ((pieces text).length + 1)).map String.toList

/-- A piece of a text holds no further line, so it says what its line says. -/
theorem motions_of_mem_pieces {text : String} {piece : List Char} (h : piece ∈ pieces text)
    (n : Int) :
    (motions (lines (String.ofList piece)) : List (Motion α)) =
      (lineOf n piece).motion?.toList := by
  rw [motions_lines, pieces_ofList (not_mem_of_mem_pieces h), motion?_lineOf n 1,
    List.filterMap_cons, List.filterMap_nil]
  cases ((lineOf 1 piece).motion? : Option (Motion α)) <;> rfl

/-- Edits of a text piece by piece keep its motions if each of them keeps those of its piece. -/
theorem motions_edit {text : String} {edit : List Char × Nat → List (List Char)}
    (h : ∀ piece n, (piece, n) ∈ (pieces text).zipIdx 1 →
      ((edit (piece, n)).flatMap fun p => (motions (lines (String.ofList p)) : List (Motion α))) =
        motions (lines (String.ofList piece))) :
    (motions (lines (ofPieces (((pieces text).zipIdx 1).flatMap edit))) : List (Motion α)) =
      motions (lines text) := by
  have hfst : pieces text = ((pieces text).zipIdx 1).map Prod.fst :=
    (List.zipIdx_map_fst 1 (pieces text)).symm
  conv => rhs; rw [← ofPieces_pieces text, motions_ofPieces, hfst, List.flatMap_map]
  rw [motions_ofPieces, List.flatMap_assoc]
  apply List.flatMap_congr
  rintro ⟨piece, n⟩ hpiece
  exact h piece n hpiece

section Hidden

variable {text : String} {hidden : Int → Bool}

/-- A hidden piece says nothing, be it a line or the end of the text. -/
theorem motions_eq_nil_of_hidden
    (hskipped : ∀ line ∈ lines text, hidden line.number = true → line.Skipped α)
    {piece : List Char} {n : Nat} (hpiece : (piece, n) ∈ (pieces text).zipIdx 1)
    (hn : hidden n = true) : (motions (lines (String.ofList piece)) : List (Motion α)) = [] := by
  rcases mem_lines_or_eq_nil hpiece with hline | rfl
  · have hnone := (Line.skipped_iff _).mp (hskipped _ hline (by rw [number_lineOf, hn]))
    rw [motions_of_mem_pieces (List.fst_mem_of_mem_zipIdx hpiece) n, hnone, Option.toList_none]
  · rfl

theorem motions_blankLines
    (hskipped : ∀ line ∈ lines text, hidden line.number = true → line.Skipped α) :
    (motions (lines (blankLines hidden text)) : List (Motion α)) = motions (lines text) := by
  rw [blankLines, List.map_eq_flatMap]
  apply motions_edit
  intro piece n hpiece
  rw [List.flatMap_singleton]
  dsimp only
  split
  · next hn => exact (motions_eq_nil_of_hidden hskipped hpiece hn).symm
  · rfl

theorem motions_deleteLines
    (hskipped : ∀ line ∈ lines text, hidden line.number = true → line.Skipped α) :
    (motions (lines (deleteLines hidden text)) : List (Motion α)) = motions (lines text) := by
  apply motions_edit
  intro piece n hpiece
  dsimp only
  split
  · next hn => exact (motions_eq_nil_of_hidden hskipped hpiece hn).symm
  · exact List.flatMap_singleton ..

end Hidden

theorem motions_insertLines {extra : Int → List String}
    (hskipped : ∀ n, ∀ block ∈ extra n, ∀ line ∈ lines block, line.Skipped α) (text : String) :
    (motions (lines (insertLines extra text)) : List (Motion α)) = motions (lines text) := by
  have hextra (n : Int) : ((extra n).map String.toList).flatMap
      (fun piece => (motions (lines (String.ofList piece)) : List (Motion α))) = [] := by
    rw [List.flatMap_map, List.flatMap_eq_nil_iff]
    intro block hblock
    rw [String.ofList_toList]
    exact motions_eq_nil (hskipped n block hblock)
  rw [insertLines, motions_ofPieces, List.flatMap_append, hextra, List.append_nil,
    ← motions_ofPieces]
  apply motions_edit
  intro piece n _
  rw [List.flatMap_append, hextra, List.nil_append, List.flatMap_singleton]

theorem pieces_blankLines (hidden : Int → Bool) (text : String) :
    pieces (blankLines hidden text) =
      ((pieces text).zipIdx 1).map fun (piece, n) => if hidden n then [] else piece := by
  have hne : ((pieces text).zipIdx 1) ≠ [] := by
    rw [Ne, List.zipIdx_eq_nil_iff]
    exact List.splitOn_ne_nil '\n' _
  rw [blankLines, pieces_ofPieces (by rwa [Ne, List.map_eq_nil_iff]), List.flatMap_map,
    List.map_eq_flatMap]
  apply List.flatMap_congr
  rintro ⟨piece, n⟩ hpiece
  dsimp only
  split
  · rfl
  · exact pieces_ofList (not_mem_of_mem_pieces (List.fst_mem_of_mem_zipIdx hpiece))

/-- What is changed in place keeps its number. -/
theorem zipIdx_map_zipIdx (f : List Char × Nat → List Char) (ps : List (List Char)) (n : Nat) :
    ((ps.zipIdx n).map f).zipIdx n = (ps.zipIdx n).map fun p => (f p, p.2) := by
  induction ps generalizing n with
  | nil => rfl
  | cons p ps ih =>
    rw [List.zipIdx_cons, List.map_cons, List.zipIdx_cons, ih]
    rfl

/-- Emptied lines keep their places, so the other lines keep their numbers. -/
theorem notes_blankLines (hidden : Int → Bool) (text : String) :
    notes (lines (blankLines hidden text)) =
      (notes (lines text)).filter fun d => !hidden d.line := by
  rw [notes, notes, filterMap_lines Line.diagnostic? (fun _ => rfl),
    filterMap_lines Line.diagnostic? (fun _ => rfl), pieces_blankLines, zipIdx_map_zipIdx,
    List.filterMap_map, List.filter_filterMap]
  apply List.filterMap_congr
  rintro ⟨piece, n⟩ -
  dsimp only [Function.comp_apply]
  cases hd : (lineOf n piece).diagnostic? with
  | none =>
    split
    · rfl
    · exact hd
  | some d =>
    have hline : d.line = n := (Line.line_of_diagnostic? hd).trans (number_lineOf n piece)
    rw [Option.filter_some, hline]
    cases hn : hidden n with
    | true => rfl
    | false => exact hd

end Nc

/-- Skipped lines do not interfere: emptied, removed or put in, they change neither the path nor
one of its measures, and emptying them takes away what was noted of them and nothing else. -/
theorem Program.parse_skipped (text : String) (hidden : Int → Bool) (extra : Int → List String)
    (hhidden : ∀ line ∈ lines text, hidden line.number = true → line.Skipped α)
    (hextra : ∀ n, ∀ block ∈ extra n, ∀ line ∈ lines block, line.Skipped α) :
    let p : Program α := parse text
    parse (blankLines hidden text) =
        { p with diagnostics := p.diagnostics.filter fun d => !hidden d.line } ∧
      (∃ ds, parse (deleteLines hidden text) = { p with diagnostics := ds }) ∧
      ∃ ds, parse (insertLines extra text) = { p with diagnostics := ds } := by
  intro p
  have hp : p = ofMoves (Modal.start.course 0 (motions (lines text))) (notes (lines text)) :=
    parse_eq text
  have hdiagnostics : p.diagnostics = notes (lines text) := by
    rw [hp]
    rfl
  refine ⟨?_, ⟨notes (lines (deleteLines hidden text)), ?_⟩,
    ⟨notes (lines (insertLines extra text)), ?_⟩⟩
  · rw [parse_eq, motions_blankLines hhidden, notes_blankLines, hdiagnostics, hp,
      ofMoves_with_diagnostics]
  · rw [parse_eq, motions_deleteLines hhidden, hp, ofMoves_with_diagnostics]
  · rw [parse_eq, motions_insertLines hextra, hp, ofMoves_with_diagnostics]

/-- An M code, a malformed line and a comment between two cuts, the malformed line the only one
that is noted. -/
theorem Program.parse_skipped_between_cuts :
    letI : Host := .standard
    let text := "G01 X1 F100\nM30\nG01 X\n(c)\nG02 X2 I1 J0"
    let hidden : Int → Bool := fun n => n == 2 || n == 3 || n == 4
    let extra : Int → List String := fun _ => ["M30 F7", "(a)\nG01 Y2 Xbad"]
    let p : Program Float := parse text
    p.moves.length = 2 ∧ p.diagnostics.length = 1 ∧
      parse (blankLines hidden text) = { p with diagnostics := [] } ∧
      (∃ ds, parse (deleteLines hidden text) = { p with diagnostics := ds }) ∧
      ∃ ds, parse (insertLines extra text) = { p with diagnostics := ds } := by
  let host : Host := .standard
  intro text hidden extra p
  have hhidden : ∀ line ∈ lines text, hidden line.number = true →
      (line.motion? : Option (Motion Float)).isNone = true := by
    decide +kernel
  have hextra : ∀ block ∈ ["M30 F7", "(a)\nG01 Y2 Xbad"], ∀ line ∈ lines block,
      (line.motion? : Option (Motion Float)).isNone = true := by
    decide +kernel
  have hnotes : (p.diagnostics.filter fun d => !hidden d.line) = [] := by decide +kernel
  have hskipped := Program.parse_skipped (α := Float) text hidden extra
    (fun line hline hn =>
      line.skipped_iff.mpr (Option.isNone_iff_eq_none.mp (hhidden line hline hn)))
    (fun _ block hblock line hline =>
      line.skipped_iff.mpr (Option.isNone_iff_eq_none.mp (hextra block hblock line hline)))
  refine ⟨by decide +kernel, by decide +kernel, ?_, hskipped.2⟩
  exact hnotes ▸ hskipped.1

end Waterjet
