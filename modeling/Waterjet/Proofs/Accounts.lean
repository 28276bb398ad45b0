import Mathlib.Data.List.DropRight
import Mathlib.Data.List.Forall2
import Waterjet.Proofs.Pieces
import Waterjet.Proofs.Verdict

/-! Accounts of a program. Each command line has one verdict, and by it a place in one account: the
motions are the path, the malformed lines are the diagnostics, and the rest leaves nothing. What is
noted of a malformed line says where it stands and which of its words is to blame. -/
namespace Waterjet
open Scalar Nc Number Text

namespace Text

theorem strip_append_of_blank (cs : List Char) {tail : List Char}
    (h : ∀ c ∈ tail, isBlank c = true) : strip (cs ++ tail) = strip cs := by
  unfold strip trim
  rw [List.dropWhile_append]
  split
  · next hempty =>
    have hcs : cs.dropWhile isBlank = [] := List.isEmpty_iff.mp hempty
    have htail : tail.dropWhile isBlank = [] := List.dropWhile_eq_nil_iff.mpr h
    rw [hcs, htail]
  · have hreverse : ∀ c ∈ tail.reverse, isBlank c = true := fun c hc => h c (List.mem_reverse.mp hc)
    unfold dropEnd
    rw [List.reverse_append, List.dropWhile_append_of_pos hreverse]

/-- White space is dropped from the end of a line in any case, so returns need not go first. -/
theorem strip_dropEnd_return (cs : List Char) : strip (dropEnd (· == '\r') cs) = strip cs := by
  have hparts : dropEnd (· == '\r') cs ++ cs.rtakeWhile (· == '\r') = cs :=
    List.rdropWhile_append_rtakeWhile
  have hblank : ∀ c ∈ cs.rtakeWhile (· == '\r'), isBlank c = true := by
    intro c hc
    have hreturn : (c == '\r') = true := List.mem_rtakeWhile_imp (p := (· == '\r')) hc
    rw [beq_iff_eq.mp hreturn]
    rfl
  conv => rhs; rw [← hparts]
  exact (strip_append_of_blank _ hblank).symm

end Text

namespace Nc

theorem getElem?_lines (text : String) (i : Nat) :
    (lines text)[i]? = (physicalLines text.toList)[i]?.map (lineOf (i + 1 : Nat)) := by
  rw [lines_eq_map, List.getElem?_map, List.getElem?_zipIdx, Option.map_map, Nat.add_comm]
  rfl

theorem body_lineOf (n : Int) (piece : List Char) :
    (lineOf n piece).body = String.ofList (strip piece) := by
  rw [Line.body, raw_lineOf, String.toList_ofList, strip_dropEnd_return]

theorem pairwise_number_lines (text : String) :
    (lines text).Pairwise fun a b => a.number < b.number := by
  have hrange : (((physicalLines text.toList).zipIdx 1).map Prod.snd).Pairwise (· < ·) := by
    rw [List.zipIdx_map_snd]
    exact List.pairwise_lt_range' 1
  rw [lines_eq_map, List.pairwise_map]
  refine (List.pairwise_map.mp hrange).imp ?_
  intro a b hab
  rw [number_lineOf, number_lineOf]
  exact Int.ofNat_lt.mpr hab

/-- The command lines with a verdict. -/
def commandsOf (α : Type) [Scalar α] (v : Verdict) (lines : List Line) : List Line :=
  lines.filter fun line => line.isCommand && verdict α line.words == v

theorem length_commands (α : Type) [Scalar α] (lines : List Line) :
    (lines.filter Line.isCommand).length = (commandsOf α .motion lines).length +
      (commandsOf α .malformed lines).length + (commandsOf α .idle lines).length := by
  unfold commandsOf
  induction lines with
  | nil => rfl
  | cons line lines ih =>
    simp only [List.filter_cons]
    cases line.isCommand with
    | false => simpa using ih
    | true =>
      cases verdict α line.words <;> simp <;> omega

/-- The letter to blame is the first in the order of the letters, and its word the first in the
order of the words. -/
theorem Line.blame_of_fault? {line : Line} {m : MalformedWord} (h : line.fault? = some m) :
    ∃ earlier letter later word, fieldLetters = earlier ++ letter :: later ∧
      (∀ l ∈ earlier, misread line.words l = false) ∧ misread line.words letter = true ∧
      wordOf? line.words letter = some word ∧ m = ⟨line.number, letterName letter, word⟩ := by
  obtain ⟨letter, hfind, rfl⟩ := Option.map_eq_some_iff.mp h
  obtain ⟨hreads, earlier, later, hletters, hearlier⟩ := List.find?_eq_some_iff_append.mp hfind
  have hmisread : misread line.words letter = true := by rw [misread_words, hreads]
  obtain ⟨word, hword⟩ : ∃ word, wordOf? line.words letter = some word := by
    rw [← Option.isSome_iff_exists]
    cases hword : wordOf? line.words letter with
    | none => simp [misread, hword] at hmisread
    | some word => rfl
  refine ⟨earlier, letter, later, word, hletters, ?_, hmisread, hword, ?_⟩
  · intro l hl
    rw [misread_words]
    simpa using hearlier l hl
  · have hsame : line.word? letter = some word := hword
    rw [malformed, hsame]
    rfl

end Nc

/-- What is noted of a malformed line of a text. -/
structure Diagnostic.Reports (text : String) (line : Line) (d : Diagnostic) : Prop where
  place : ∃ (i : Nat) (piece : List Char), (physicalLines text.toList)[i]? = some piece ∧
    line = lineOf (i + 1 : Nat) piece ∧ d.line = (i + 1 : Nat) ∧
    d.text = String.ofList (strip piece)
  blame : ∃ earlier letter later word, fieldLetters = earlier ++ letter :: later ∧
    (∀ l ∈ earlier, misread line.words l = false) ∧ misread line.words letter = true ∧
    wordOf? line.words letter = some word ∧
    d.message =
      s!"Field Error at L{written d.line}, {letterName letter}: Expected number ({quoted word})"

theorem Diagnostic.reports_of_diagnostic? {text : String} {line : Line} {d : Diagnostic}
    (hline : line ∈ lines text) (h : line.diagnostic? = some d) : d.Reports text line := by
  obtain ⟨i, hi⟩ := List.mem_iff_getElem?.mp hline
  rw [getElem?_lines] at hi
  obtain ⟨piece, hpiece, rfl⟩ := Option.map_eq_some_iff.mp hi
  unfold Line.diagnostic? at h
  split at h
  · obtain ⟨m, hm, rfl⟩ := Option.map_eq_some_iff.mp h
    obtain ⟨earlier, letter, later, word, hletters, hearlier, hmisread, hword, rfl⟩ :=
      Line.blame_of_fault? hm
    constructor
    · exact ⟨i, piece, hpiece, rfl, number_lineOf _ _, body_lineOf _ _⟩
    · exact ⟨earlier, letter, later, word, hletters, hearlier, hmisread, hword, rfl⟩
  · cases h

/-- If a filter keeps what a partial function takes up, the two lists go in step. -/
theorem Nc.forall₂_filter_filterMap {β γ : Type} {p : β → Bool} {f : β → Option γ}
    {R : β → γ → Prop} {xs : List β} (hp : ∀ x ∈ xs, p x = (f x).isSome)
    (hR : ∀ x ∈ xs, ∀ y, f x = some y → R x y) : List.Forall₂ R (xs.filter p) (xs.filterMap f) := by
  induction xs with
  | nil => exact .nil
  | cons x xs ih =>
    have hrest := ih (fun x' h => hp x' (List.mem_cons_of_mem x h))
      (fun x' h => hR x' (List.mem_cons_of_mem x h))
    have hx := hp x List.mem_cons_self
    cases hf : f x with
    | none =>
      rw [hf, Option.isSome_none] at hx
      rw [List.filter_cons_of_neg (by simp [hx]), List.filterMap_cons_none hf]
      exact hrest
    | some y =>
      rw [hf, Option.isSome_some] at hx
      rw [List.filter_cons_of_pos hx, List.filterMap_cons_some hf]
      exact .cons (hR x List.mem_cons_self y hf) hrest

variable {α : Type} [Scalar α]

namespace Nc

theorem Line.isSome_diagnostic? (line : Line) :
    line.diagnostic?.isSome = (line.isCommand && verdict α line.words == .malformed) := by
  unfold diagnostic? verdict
  rw [← isSome_fault?]
  cases line.isCommand with
  | false => rfl
  | true =>
    cases line.fault? with
    | some m => rfl
    | none => cases codesMotion α line.words <;> rfl

theorem forall₂_notes (α : Type) [Scalar α] (text : String) :
    List.Forall₂ (fun line d => d.Reports text line) (commandsOf α .malformed (lines text))
      (notes (lines text)) :=
  forall₂_filter_filterMap (fun line _ => line.isSome_diagnostic?.symm)
    (fun _ hline _ hd => Diagnostic.reports_of_diagnostic? hline hd)

theorem pairwise_line_notes (text : String) :
    (notes (lines text)).Pairwise fun d e => d.line < e.line := by
  refine (pairwise_number_lines text).filterMap _ ?_
  intro a b hab d hd e he
  rw [Line.line_of_diagnostic? hd, Line.line_of_diagnostic? he]
  exact hab

end Nc

/-- A move is made of a line by a reader that has read the lines before it. -/
def Move.MadeOf (lines : List Line) (line : Line) (move : Move α) : Prop :=
  ∃ before after s, lines = before ++ line :: after ∧
    (Reader.start.run before).modal.interpretLine? line
      (Reader.start.run before : Reader α).tally.moves.size = .ok (s, some move)

namespace Reader

/-- The moves still to come are made of the motion lines still to come. -/
theorem forall₂_follow (before rest : List Line) :
    let r : Reader α := start.run before
    List.Forall₂ (Move.MadeOf (before ++ rest)) (commandsOf α .motion rest)
      (r.modal.follow r.tally.moves.size rest) := by
  intro r
  induction rest generalizing before with
  | nil => exact .nil
  | cons line rest ih =>
    have hrest := ih (before ++ [line])
    have hstep : (start.run (before ++ [line]) : Reader α) = r.step line := by
      rw [run, List.foldl_append]
      rfl
    rw [hstep, List.append_assoc, List.singleton_append] at hrest
    unfold Modal.follow commandsOf
    by_cases hcommand : line.isCommand = true
    · rw [if_pos hcommand]
      have hv := r.modal.ofResult_interpretLine? hcommand r.tally.moves.size
      unfold step at hrest
      rw [if_pos hcommand] at hrest
      obtain ⟨m, -, -, hs⟩ | ⟨m, -, -, hs⟩ | ⟨-, -, hs⟩ :=
        r.modal.interpretLine?_cases hcommand r.tally.moves.size
      · rw [hs] at hv hrest
        rw [hs, List.filter_cons_of_neg (by simp [← hv, Verdict.ofResult])]
        exact hrest
      · rw [hs] at hv hrest
        have hsize : (r.tally.add (r.modal.move m.fields m.command r.tally.moves.size)).moves.size =
            r.tally.moves.size + 1 := Tally.size_moves_add ..
        rw [hs, List.filter_cons_of_pos (by simp [← hv, Verdict.ofResult, hcommand]), ← hsize]
        exact .cons ⟨before, rest, r.modal.obey m, rfl, hs⟩ hrest
      · rw [hs] at hv hrest
        rw [hs, List.filter_cons_of_neg (by simp [← hv, Verdict.ofResult])]
        exact hrest
    · have hkept : r.step line = r := if_neg hcommand
      rw [if_neg hcommand, List.filter_cons_of_neg (by simp [hcommand])]
      rw [hkept] at hrest
      exact hrest

end Reader

end Waterjet
