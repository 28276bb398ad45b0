import Mathlib.Data.List.DropRight
import Waterjet.Host.Standard
import Waterjet.Proofs.Encoding
import Waterjet.Proofs.Pieces

/-! Line ends. Two ways of dealing with a carriage return meet here: the reader of a file writes it
as a line feed, the reader of a line drops it from the end. Where each carriage return stands right
before a line feed, both come to the same as a text that never had any. -/
namespace Waterjet
open Scalar Nc

namespace Text

/-- Each carriage return has a line feed right behind it. -/
def ReturnsPaired (cs : List Char) : Prop := ∀ i : Nat, cs[i]? = some '\r' → cs[i + 1]? = some '\n'

def dropReturns (cs : List Char) : List Char := cs.filter (· != '\r')

theorem returnsPaired_iff (cs : List Char) :
    ReturnsPaired cs ↔ ∀ i < cs.length, cs[i]? = some '\r' → cs[i + 1]? = some '\n' := by
  constructor
  · intro h i _ hi
    exact h i hi
  · intro h i hi
    exact h i (List.getElem?_eq_some_iff.mp hi).1 hi

instance (cs : List Char) : Decidable (ReturnsPaired cs) :=
  decidable_of_iff _ (returnsPaired_iff cs).symm

namespace ReturnsPaired

variable {c : Char} {cs : List Char}

theorem tail (h : ReturnsPaired (c :: cs)) : ReturnsPaired cs := fun i hi => h (i + 1) hi

theorem head?_of_return (h : ReturnsPaired ('\r' :: cs)) : cs.head? = some '\n' := by
  have hnext : cs[0]? = some '\n' := h 0 rfl
  rwa [← List.head?_eq_getElem?] at hnext

/-- A text with paired returns is made of pairs and of other characters. -/
@[elab_as_elim]
theorem induction {motive : List Char → Prop} (nil : motive [])
    (pair : ∀ cs, motive cs → motive ('\r' :: '\n' :: cs))
    (other : ∀ c cs, c ≠ '\r' → motive cs → motive (c :: cs)) (h : ReturnsPaired cs) :
    motive cs := by
  suffices hboth : motive cs ∧ (cs.head? = some '\n' → motive cs.tail) from hboth.1
  induction cs with
  | nil => exact ⟨nil, nofun⟩
  | cons c cs ih =>
    obtain ⟨hcs, htail⟩ := ih h.tail
    refine ⟨?_, fun _ => hcs⟩
    by_cases hc : c = '\r'
    · subst hc
      have hhead := h.head?_of_return
      obtain ⟨rest, rfl⟩ := List.head?_eq_some_iff.mp hhead
      exact pair rest (htail rfl)
    · exact other c cs hc hcs

end ReturnsPaired

theorem dropReturns_cons_of_ne {c : Char} (h : c ≠ '\r') (cs : List Char) :
    dropReturns (c :: cs) = c :: dropReturns cs :=
  List.filter_cons_of_pos (bne_iff_ne.mpr h)

theorem dropReturns_pair (cs : List Char) :
    dropReturns ('\r' :: '\n' :: cs) = '\n' :: dropReturns cs := rfl

theorem foldl_unifyStep {cs : List Char} (h : ReturnsPaired cs) (done : List Char) :
    (cs.foldl unifyStep (false, done)).2 = (dropReturns cs).reverse ++ done := by
  revert done
  refine h.induction (fun _ => rfl) ?_ ?_
  · intro cs ih done
    have hsteps : ('\r' :: '\n' :: cs).foldl unifyStep (false, done) =
        cs.foldl unifyStep (false, '\n' :: done) := rfl
    rw [hsteps, ih, dropReturns_pair, List.reverse_cons, List.append_assoc]
    rfl
  · intro c cs hc ih done
    have hstep : unifyStep (false, done) c = (false, c :: done) := by
      unfold unifyStep
      simp [hc]
    rw [List.foldl_cons, hstep, ih, dropReturns_cons_of_ne hc, List.reverse_cons,
      List.append_assoc]
    rfl

/-- To write paired line ends as line feeds is to drop the returns. -/
theorem unifyLineEnds_eq {cs : List Char} (h : ReturnsPaired cs) :
    unifyLineEnds cs = dropReturns cs := by
  rw [unifyLineEnds, foldl_unifyStep h, List.append_nil, List.reverse_reverse]

/-- What is read from a text without carriage returns is the text. -/
theorem unifyLineEnds_of_not_mem {cs : List Char} (h : '\r' ∉ cs) : unifyLineEnds cs = cs := by
  have hpaired : ReturnsPaired cs := fun i hi => absurd (List.mem_of_getElem? hi) h
  rw [unifyLineEnds_eq hpaired]
  exact List.filter_eq_self.mpr fun c hc => bne_iff_ne.mpr (ne_of_mem_of_not_mem hc h)

theorem dropEnd_cons_of_neg {p : Char → Bool} {c : Char} (h : p c = false) (cs : List Char) :
    dropEnd p (c :: cs) = c :: dropEnd p cs := by
  unfold dropEnd
  rw [List.reverse_cons, List.dropWhile_append]
  split
  · next hempty =>
    have hnil : cs.reverse.dropWhile p = [] := List.isEmpty_iff.mp hempty
    rw [hnil]
    simp [h]
  · rw [List.reverse_append]
    rfl

/-- Without the returns each line is what it was without those at its end. -/
theorem splitOn_dropReturns {cs : List Char} (h : ReturnsPaired cs) :
    (dropReturns cs).splitOn '\n' = (cs.splitOn '\n').map (dropEnd (· == '\r')) := by
  refine h.induction rfl ?_ ?_
  · intro cs ih
    have hfeed : ('\n' :: dropReturns cs).splitOn '\n' = [] :: (dropReturns cs).splitOn '\n' :=
      List.splitOn_append_cons_self [] (dropReturns cs)
    have hpair : ('\r' :: '\n' :: cs).splitOn '\n' = ['\r'] :: cs.splitOn '\n' :=
      List.splitOn_append_cons_self ['\r'] cs
    rw [dropReturns_pair, hfeed, ih, hpair]
    rfl
  · intro c cs hc ih
    rw [dropReturns_cons_of_ne hc, List.splitOn_cons_eq_if_modifyHead,
      List.splitOn_cons_eq_if_modifyHead, ih]
    split
    · rfl
    · obtain ⟨p, ps, hsplit⟩ := List.exists_cons_of_ne_nil (List.splitOn_ne_nil '\n' cs)
      have hp : dropEnd (· == '\r') (c :: p) = c :: dropEnd (· == '\r') p :=
        dropEnd_cons_of_neg (p := (· == '\r')) (beq_eq_false_iff_ne.mpr hc) p
      rw [hsplit, List.map_cons, List.modifyHead_cons, List.modifyHead_cons, List.map_cons, hp]

end Text

open Text

namespace Nc

theorem lineOf_dropEnd (n : Int) (piece : List Char) :
    lineOf n (dropEnd (· == '\r') piece) = lineOf n piece := by
  have htwice : dropEnd (· == '\r') (dropEnd (· == '\r') piece) = dropEnd (· == '\r') piece :=
    List.rdropWhile_idempotent (· == '\r') piece
  rw [lineOf, lineOf, htwice]

/-- A line has no part in the carriage returns at the end of its piece, whatever is taken from
it. -/
theorem filterMap_lines_congr {β : Type} {f : Line → Option β} (hblank : ∀ n, f (lineOf n []) = none)
    {a b : String} (h : pieces a = (pieces b).map (dropEnd (· == '\r'))) :
    (lines a).filterMap f = (lines b).filterMap f := by
  rw [filterMap_lines f hblank, filterMap_lines f hblank, h, List.zipIdx_map, List.filterMap_map]
  apply List.filterMap_congr
  rintro ⟨piece, n⟩ -
  exact congrArg f (lineOf_dropEnd n piece)

/-- A text without its carriage returns. -/
def withoutReturns (text : String) : String := String.ofList (dropReturns text.toList)

theorem pieces_withoutReturns {text : String} (h : ReturnsPaired text.toList) :
    pieces (withoutReturns text) = (pieces text).map (dropEnd (· == '\r')) := by
  rw [pieces, withoutReturns, String.toList_ofList, splitOn_dropReturns h]
  rfl

end Nc

namespace Program

variable {α : Type} [Scalar α]

/-- The pieces of a text, up to the carriage returns at their ends, decide all that is read. -/
theorem parse_congr {a b : String} (h : pieces a = (pieces b).map (dropEnd (· == '\r'))) :
    (parse a : Program α) = parse b := by
  have hmotions : (motions (lines a) : List (Motion α)) = motions (lines b) :=
    filterMap_lines_congr (fun _ => rfl) h
  have hnotes : notes (lines a) = notes (lines b) := filterMap_lines_congr (fun _ => rfl) h
  rw [parse_eq, parse_eq, hmotions, hnotes]

theorem fileText_toUTF8 {text : String} (h : ReturnsPaired text.toList) :
    fileText text.toUTF8.toList = withoutReturns text := by
  rw [fileText, Utf8.decode_toUTF8, unifyLineEnds_eq h]
  rfl

/-- Line ends make no difference. Where carriage returns stand before line feeds only, a text, the
text without them and a file that holds it are the same program, with the same numbers and texts in
its diagnostics. -/
theorem parse_lineEnds {text : String} (h : ReturnsPaired text.toList) :
    (parse (withoutReturns text) : Program α) = parse text ∧
      (parseBytes text.toUTF8.toList : Program α) = parse text := by
  have hreturns : (parse (withoutReturns text) : Program α) = parse text :=
    parse_congr (pieces_withoutReturns h)
  refine ⟨hreturns, ?_⟩
  rw [parseBytes, fileText_toUTF8 h]
  exact hreturns

theorem parse_lineEnds_mixed :
    letI : Host := .standard
    let text := "G01 X1 F100\r\nG01 X\r\n(\u00E4)\r\n\r\nG02 X2\nM30 Yq"
    ReturnsPaired text.toList ∧ withoutReturns text ≠ text ∧
      (parse (withoutReturns text) : Program Float) = parse text ∧
      (parseBytes text.toUTF8.toList : Program Float) = parse text := by
  let host : Host := .standard
  intro text
  have hpaired : ReturnsPaired text.toList := by decide +kernel
  exact ⟨hpaired, by decide +kernel, parse_lineEnds hpaired⟩

end Program

end Waterjet
