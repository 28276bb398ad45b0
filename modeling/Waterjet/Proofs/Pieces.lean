import Mathlib.Data.List.Basic
import Waterjet.Proofs.Course

/-! A text as the pieces between its line feeds. Pieces put together again, even if they hold line
feeds themselves, say what they say one by one: no line sees its neighbours. An empty last piece is
no physical line, and it would say nothing if it were. -/
namespace Waterjet.Text

/-- The text up to the first line feed is a physical line, and the others are those of the rest. -/
theorem physicalLines_append_cons {segment : List Char} (h : '\n' ∉ segment) (cs : List Char) :
    physicalLines (segment ++ '\n' :: cs) = segment :: physicalLines cs := by
  have hsplit : (segment ++ '\n' :: cs).splitOnP (· == '\n') =
      segment :: cs.splitOnP (· == '\n') := by
    change (segment ++ '\n' :: cs).splitOn '\n' = _
    rw [List.splitOn_append_cons_self, List.splitOn_eq_singleton h]
    rfl
  have hne : cs.splitOnP (· == '\n') ≠ [] := List.splitOnP_ne_nil _ cs
  unfold physicalLines
  dsimp only
  rw [hsplit, List.getLast?_cons_of_ne_nil hne]
  split
  · exact List.dropLast_cons_of_ne_nil hne
  · rfl

end Waterjet.Text

namespace Waterjet.Nc
open Scalar Text

variable {α : Type} [Scalar α]

/-- The stretches of a text between its line feeds. -/
def pieces (text : String) : List (List Char) := text.toList.splitOn '\n'

/-- The text with the given pieces, a line feed between each two. -/
def ofPieces (ps : List (List Char)) : String := String.ofList (['\n'].intercalate ps)

/-- A piece as a line. Carriage returns at its end do not belong to it. -/
def lineOf (number : Int) (piece : List Char) : Line :=
  classify number (String.ofList (dropEnd (· == '\r') piece))

theorem not_mem_of_mem_pieces {text : String} {piece : List Char} (h : piece ∈ pieces text) :
    '\n' ∉ piece := by
  unfold pieces at h
  generalize text.toList = cs at h
  induction cs generalizing piece with
  | nil =>
    cases List.mem_singleton.mp h
    exact List.not_mem_nil
  | cons c cs ih =>
    rw [List.splitOn_cons_eq_if_modifyHead] at h
    split at h
    · rcases List.mem_cons.mp h with rfl | h
      · exact List.not_mem_nil
      · exact ih h
    · next hc =>
      obtain ⟨p, ps, hsplit⟩ := List.exists_cons_of_ne_nil (List.splitOn_ne_nil '\n' cs)
      rw [hsplit, List.modifyHead_cons] at h
      rcases List.mem_cons.mp h with rfl | h
      · have hp := ih (hsplit ▸ List.mem_cons_self)
        have hne : '\n' ≠ c := fun heq => hc (beq_iff_eq.mpr heq.symm)
        simp [hne, hp]
      · exact ih (hsplit ▸ List.mem_cons_of_mem _ h)

theorem pieces_ofPieces {ps : List (List Char)} (h : ps ≠ []) :
    pieces (ofPieces ps) = ps.flatMap fun piece => pieces (String.ofList piece) := by
  unfold pieces ofPieces
  simp only [String.toList_ofList]
  induction ps with
  | nil => exact absurd rfl h
  | cons p ps ih =>
    cases ps with
    | nil => simp
    | cons q ps =>
      rw [List.intercalate_cons_cons, List.append_assoc, List.singleton_append,
        List.splitOn_append_cons_self, ih (List.cons_ne_nil q ps)]
      rfl

theorem pieces_ofList {piece : List Char} (h : '\n' ∉ piece) :
    pieces (String.ofList piece) = [piece] := by
  rw [pieces, String.toList_ofList, List.splitOn_eq_singleton h]

theorem ofPieces_pieces (text : String) : ofPieces (pieces text) = text := by
  rw [ofPieces, pieces, List.intercalate_splitOn, String.ofList_toList]

/-- An empty last piece is no line. -/
theorem pieces_eq (text : String) :
    pieces text = physicalLines text.toList ∨
      pieces text = physicalLines text.toList ++ [[]] := by
  have hsplit : text.toList.splitOnP (· == '\n') = pieces text := rfl
  rw [physicalLines, hsplit]
  split
  · next hlast => exact .inr (List.dropLast_append_getLast? [] hlast).symm
  · exact .inl rfl

theorem lines_eq_map (text : String) :
    lines text = ((physicalLines text.toList).zipIdx 1).map fun (piece, n) => lineOf n piece := rfl

/-- What is taken from the lines of a text can be taken from its pieces, if a blank line has
nothing to take. -/
theorem filterMap_lines {β : Type} (f : Line → Option β) (hblank : ∀ n, f (lineOf n []) = none)
    (text : String) :
    (lines text).filterMap f =
      ((pieces text).zipIdx 1).filterMap fun (piece, n) => f (lineOf n piece) := by
  have hlines : (lines text).filterMap f =
      ((physicalLines text.toList).zipIdx 1).filterMap fun (piece, n) => f (lineOf n piece) := by
    rw [lines_eq_map, List.filterMap_map]
    rfl
  rcases pieces_eq text with h | h
  · rw [hlines, h]
  · rw [hlines, h, List.zipIdx_append, List.filterMap_append]
    simp [hblank]

theorem mem_lines_or_eq_nil {text : String} {piece : List Char} {n : Nat}
    (h : (piece, n) ∈ (pieces text).zipIdx 1) : lineOf n piece ∈ lines text ∨ piece = [] := by
  rw [lines_eq_map, List.mem_map]
  rcases pieces_eq text with hpieces | hpieces
  · rw [hpieces] at h
    exact .inl ⟨(piece, n), h, rfl⟩
  · rw [hpieces, List.zipIdx_append, List.mem_append] at h
    rcases h with h | h
    · exact .inl ⟨(piece, n), h, rfl⟩
    · rw [List.zipIdx_singleton, List.mem_singleton, Prod.mk.injEq] at h
      exact .inr h.1

theorem Line.motion?_congr {a b : Line} (hkind : a.kind = b.kind) (hwords : a.words = b.words) :
    (a.motion? : Option (Motion α)) = b.motion? := by
  have hfields : (a.fields : Fields α) = b.fields := Line.fields_congr hwords
  have hreads : a.reads = b.reads := by
    unfold Line.reads Line.word?
    rw [hwords]
  have hfault : a.fault?.isNone = b.fault?.isNone := by
    rw [Bool.eq_iff_iff, Option.isNone_iff_eq_none, Option.isNone_iff_eq_none,
      fault?_eq_none_iff, fault?_eq_none_iff, hreads]
  unfold motion? isCommand
  rw [hkind, hfault, hfields]

/-- The number of a line has no part in its class or its words. -/
theorem classify_eq (m n : Int) (raw : String) :
    classify m raw = { classify n raw with number := m } := by
  unfold classify
  dsimp only
  split
  · rfl
  · split <;> rfl

theorem number_lineOf (n : Int) (piece : List Char) : (lineOf n piece).number = n := by
  unfold lineOf classify
  dsimp only
  split
  · rfl
  · split <;> rfl

theorem raw_lineOf (n : Int) (piece : List Char) :
    (lineOf n piece).raw = String.ofList (dropEnd (· == '\r') piece) := by
  unfold lineOf classify
  dsimp only
  split
  · rfl
  · split <;> rfl

/-- The motion of a piece, wherever it stands. -/
theorem motion?_lineOf (m n : Int) (piece : List Char) :
    ((lineOf m piece).motion? : Option (Motion α)) = (lineOf n piece).motion? := by
  apply Line.motion?_congr
  · rw [lineOf, lineOf, classify_eq m n]
  · rw [lineOf, lineOf, classify_eq m n]

theorem motions_lines (text : String) :
    (motions (lines text) : List (Motion α)) =
      (pieces text).filterMap fun piece => (lineOf 1 piece).motion? := by
  have hfst : pieces text = ((pieces text).zipIdx 1).map Prod.fst :=
    (List.zipIdx_map_fst 1 (pieces text)).symm
  rw [motions, filterMap_lines Line.motion? (fun _ => rfl)]
  conv => rhs; rw [hfst, List.filterMap_map]
  apply List.filterMap_congr
  rintro ⟨piece, n⟩ -
  dsimp only [Function.comp_apply]
  rw [motion?_lineOf n 1]

/-- The motions of a text are those of its pieces, each read as a text of its own. -/
theorem motions_ofPieces (ps : List (List Char)) :
    (motions (lines (ofPieces ps)) : List (Motion α)) =
      ps.flatMap fun piece => motions (lines (String.ofList piece)) := by
  cases ps with
  | nil => rfl
  | cons p ps =>
    rw [motions_lines, pieces_ofPieces (List.cons_ne_nil p ps), List.filterMap_flatMap]
    simp only [motions_lines]

end Waterjet.Nc
