import Mathlib.Data.List.Forall2
import Waterjet.Proofs.LineEnds

/-! The physical lines of a text. A text falls into segments in one way only: each of them ends at a
line feed, but for the last one, which may go unended unless it is empty. The lines are these
segments in their order, without the carriage returns at their ends, so two texts have the same
lines exactly if their segments differ in such returns at most. -/
namespace Waterjet
open Text

namespace Text

/-- The stretches of a text up to its line feeds, and what stands behind the last one, if anything
does. -/
inductive Segmented : List (List Char) → List Char → Prop
  | empty : Segmented [] []
  | unended {segment : List Char} (nonempty : segment ≠ []) (solid : '\n' ∉ segment) :
      Segmented [segment] segment
  | ended {segment cs : List Char} {segments : List (List Char)} (solid : '\n' ∉ segment)
      (others : Segmented segments cs) : Segmented (segment :: segments) (segment ++ '\n' :: cs)

namespace Segmented

variable {segments : List (List Char)} {cs : List Char}

theorem physicalLines_eq (h : Segmented segments cs) : physicalLines cs = segments := by
  induction h with
  | empty => rfl
  | @unended segment hne hsolid =>
    have hsplit : segment.splitOnP (· == '\n') = [segment] := List.splitOn_eq_singleton hsolid
    have hlast : ¬ [segment].getLast? = some [] := fun h => hne (Option.some.inj h)
    rw [physicalLines, hsplit, if_neg hlast]
  | ended hsolid _ ih => rw [physicalLines_append_cons hsolid, ih]

/-- A character that ends no line becomes part of the first segment. -/
theorem exists_cons {c : Char} (hc : c ≠ '\n') (h : Segmented segments cs) :
    ∃ longer, Segmented longer (c :: cs) := by
  have hsolid {segment : List Char} (hsegment : '\n' ∉ segment) : '\n' ∉ c :: segment :=
    List.not_mem_cons_of_ne_of_not_mem hc.symm hsegment
  cases h with
  | empty => exact ⟨[[c]], .unended (List.cons_ne_nil c []) (hsolid List.not_mem_nil)⟩
  | unended _ hsegment => exact ⟨_, .unended (List.cons_ne_nil c cs) (hsolid hsegment)⟩
  | ended hsegment others => exact ⟨_, .ended (hsolid hsegment) others⟩

theorem newline_not_mem (h : Segmented segments cs) : ∀ segment ∈ segments, '\n' ∉ segment := by
  induction h with
  | empty => nofun
  | unended _ hsolid => exact List.forall_mem_singleton.mpr hsolid
  | ended hsolid _ ih => exact List.forall_mem_cons.mpr ⟨hsolid, ih⟩

/-- Line feeds are all that the segments leave out. -/
theorem flatten_eq (h : Segmented segments cs) : segments.flatten = cs.filter (· != '\n') := by
  have hself {segment : List Char} (hsolid : '\n' ∉ segment) :
      segment.filter (· != '\n') = segment :=
    List.filter_eq_self.mpr fun c hc => bne_iff_ne.mpr (ne_of_mem_of_not_mem hc hsolid)
  induction h with
  | empty => rfl
  | unended _ hsolid => rw [hself hsolid, List.flatten_singleton]
  | ended hsolid _ ih =>
    rw [List.filter_append, hself hsolid, List.flatten_cons, ih]
    rfl

theorem length_eq (h : Segmented segments cs) : segments.length =
    cs.count '\n' + if cs = [] ∨ cs.getLast? = some '\n' then 0 else 1 := by
  induction h with
  | empty => rfl
  | @unended segment hne hsolid =>
    have hlast : segment.getLast? ≠ some '\n' := fun h => hsolid (List.mem_of_getLast? h)
    rw [List.count_eq_zero.mpr hsolid, if_neg (not_or.mpr ⟨hne, hlast⟩)]
    rfl
  | @ended segment cs _ hsolid _ ih =>
    -- Behind a line feed the rest of the text is ended, unended or empty as the whole is.
    have hended : (segment ++ '\n' :: cs = [] ∨ (segment ++ '\n' :: cs).getLast? = some '\n') ↔
        (cs = [] ∨ cs.getLast? = some '\n') := by
      cases cs with
      | nil => simp
      | cons c cs => simp [List.getLast?_append]
    rw [List.length_cons, ih, List.count_append, List.count_eq_zero.mpr hsolid,
      List.count_cons_self, if_congr hended rfl rfl]
    omega

end Segmented

theorem segmented_physicalLines (cs : List Char) : Segmented (physicalLines cs) cs := by
  induction cs with
  | nil => exact .empty
  | cons c cs ih =>
    by_cases hc : c = '\n'
    · subst hc
      have hsolid : '\n' ∉ ([] : List Char) := List.not_mem_nil
      have hcons : physicalLines ('\n' :: cs) = [] :: physicalLines cs :=
        physicalLines_append_cons hsolid cs
      rw [hcons]
      exact .ended hsolid ih
    · obtain ⟨segments, h⟩ := ih.exists_cons hc
      rw [h.physicalLines_eq]
      exact h

/-- A text has its segments in one way only. -/
theorem segmented_iff {segments : List (List Char)} {cs : List Char} :
    Segmented segments cs ↔ segments = physicalLines cs :=
  ⟨fun h => h.physicalLines_eq.symm, fun h => h ▸ segmented_physicalLines cs⟩

/-- The same segment, up to the carriage returns at its end. -/
def SameButReturns (a b : List Char) : Prop :=
  ∃ bare j k, a = bare ++ List.replicate j '\r' ∧ b = bare ++ List.replicate k '\r'

theorem dropEnd_append_replicate (c : Char) (cs : List Char) (k : Nat) :
    dropEnd (· == c) (cs ++ List.replicate k c) = dropEnd (· == c) cs := by
  induction k with
  | zero => rw [List.replicate_zero, List.append_nil]
  | succ k ih =>
    have hlast : dropEnd (· == c) (cs ++ List.replicate k c ++ [c]) =
        dropEnd (· == c) (cs ++ List.replicate k c) :=
      List.rdropWhile_concat_pos (· == c) _ c (beq_self_eq_true c)
    rw [List.replicate_succ', ← List.append_assoc, hlast, ih]

theorem getLast?_dropEnd_ne (c : Char) (cs : List Char) :
    (dropEnd (· == c) cs).getLast? ≠ some c := by
  intro h
  obtain ⟨front, hfront⟩ := List.getLast?_eq_some_iff.mp h
  have hne : dropEnd (· == c) cs ≠ [] := by simp [hfront]
  have hlast : ¬ (dropEnd (· == c) cs).getLast hne == c := List.rdropWhile_last_not (· == c) cs hne
  rw [List.getLast?_eq_some_getLast hne, Option.some.injEq] at h
  exact hlast (beq_iff_eq.mpr h)

theorem sameButReturns_iff {a b : List Char} :
    SameButReturns a b ↔ dropEnd (· == '\r') a = dropEnd (· == '\r') b := by
  constructor
  · rintro ⟨bare, j, k, rfl, rfl⟩
    rw [dropEnd_append_replicate, dropEnd_append_replicate]
  · intro h
    obtain ⟨j, hj⟩ := eq_dropEnd_append '\r' a
    obtain ⟨k, hk⟩ := eq_dropEnd_append '\r' b
    exact ⟨_, j, k, hj, h ▸ hk⟩

theorem forall₂_sameButReturns_iff {as bs : List (List Char)} :
    List.Forall₂ SameButReturns as bs ↔
      as.map (dropEnd (· == '\r')) = bs.map (dropEnd (· == '\r')) := by
  have hsame : SameButReturns = fun a b => dropEnd (· == '\r') a = dropEnd (· == '\r') b :=
    funext₂ fun a b => propext sameButReturns_iff
  rw [← List.forall₂_eq_eq_eq, List.forall₂_map_left_iff, List.forall₂_map_right_iff, hsame]

end Text

namespace Nc

/-- The line that a segment is: its number and, without the carriage returns at its end, its own
text, by which it is classified. -/
structure Line.IsOf (line : Line) (n : Nat) (segment : List Char) : Prop where
  number : line.number = n
  returns : ∃ k, segment = line.raw.toList ++ List.replicate k '\r'
  last : line.raw.toList.getLast? ≠ some '\r'
  solid : '\n' ∉ line.raw.toList
  classified : line = classify n line.raw

theorem isOf_lineOf (n : Nat) {segment : List Char} (h : '\n' ∉ segment) :
    (lineOf n segment).IsOf n segment := by
  have hraw : (lineOf n segment).raw.toList = dropEnd (· == '\r') segment := by
    rw [raw_lineOf, String.toList_ofList]
  obtain ⟨k, hk⟩ := eq_dropEnd_append '\r' segment
  constructor
  · exact number_lineOf n segment
  · exact ⟨k, hraw ▸ hk⟩
  · rw [hraw]
    exact getLast?_dropEnd_ne '\r' segment
  · rw [hraw]
    rw [hk] at h
    exact fun hmem => h (List.mem_append_left _ hmem)
  · rw [raw_lineOf, lineOf]

theorem forall₂_lines (text : String) :
    List.Forall₂ (fun line segment => line.IsOf segment.2 segment.1) (lines text)
      ((physicalLines text.toList).zipIdx 1) := by
  rw [lines_eq_map, List.forall₂_map_left_iff, List.forall₂_same]
  rintro ⟨segment, n⟩ hmem
  have hsegment : segment ∈ physicalLines text.toList := by
    rw [← List.zipIdx_map_fst 1 (physicalLines text.toList)]
    exact List.mem_map_of_mem hmem
  exact isOf_lineOf n ((segmented_physicalLines text.toList).newline_not_mem segment hsegment)

/-- Lines bear the texts of their segments and nothing else of them. -/
theorem lines_eq_iff (a b : String) : lines a = lines b ↔
    (physicalLines a.toList).map (dropEnd (· == '\r')) =
      (physicalLines b.toList).map (dropEnd (· == '\r')) := by
  have hraws (text : String) : (lines text).map (fun line => line.raw.toList) =
      (physicalLines text.toList).map (dropEnd (· == '\r')) := by
    conv => rhs; rw [← List.zipIdx_map_fst 1 (physicalLines text.toList)]
    rw [lines_eq_map, List.map_map, List.map_map]
    apply List.map_congr_left
    rintro ⟨segment, n⟩ -
    dsimp only [Function.comp_apply]
    rw [raw_lineOf, String.toList_ofList]
  have hbare (text : String) : lines text =
      (((physicalLines text.toList).map (dropEnd (· == '\r'))).zipIdx 1).map
        fun segment => lineOf segment.2 segment.1 := by
    rw [lines_eq_map, List.zipIdx_map, List.map_map]
    apply List.map_congr_left
    rintro ⟨segment, n⟩ -
    dsimp only [Function.comp_apply, Prod.map_apply, id_eq]
    rw [lineOf_dropEnd]
  constructor
  · intro h
    rw [← hraws, ← hraws, h]
  · intro h
    rw [hbare a, hbare b, h]

/-- A text has one line for each of its segments, numbered from one, and as many as it has line
feeds, and one more if the last of them does not end it. No other character ends a line: line feeds
are all that the segments leave out. Two texts have the same lines exactly if they have the same
segments up to the carriage returns at their ends. -/
theorem lines_segmented (text : String) :
    ∃ segments, (∀ others, Segmented others text.toList ↔ others = segments) ∧
      List.Forall₂ (fun line segment => line.IsOf segment.2 segment.1) (lines text)
        (segments.zipIdx 1) ∧
      (lines text).length = text.toList.count '\n' +
        (if text = "" ∨ text.toList.getLast? = some '\n' then 0 else 1) ∧
      segments.flatten = text.toList.filter (· != '\n') ∧
      ∀ other others, Segmented others other.toList →
        (lines text = lines other ↔ List.Forall₂ SameButReturns segments others) := by
  have hsegmented := segmented_physicalLines text.toList
  refine ⟨physicalLines text.toList, fun _ => segmented_iff, forall₂_lines text, ?_,
    hsegmented.flatten_eq, ?_⟩
  · have hempty : text.toList = [] ↔ text = "" := String.toList_eq_nil_iff
    rw [lines_eq_map, List.length_map, List.length_zipIdx, hsegmented.length_eq]
    simp only [hempty]
  · intro other others h
    rw [lines_eq_iff, forall₂_sameButReturns_iff, h.physicalLines_eq]

/-- Other ends of lines, among them a carriage return inside a line, end none. -/
example : (lines "G00\r\r\n\x0b\x0cX1\rY\u0085Z\u2028\r\n\n\r").map
      (fun line => (line.number, line.raw)) =
    [(1, "G00"), (2, "\x0b\x0cX1\rY\u0085Z\u2028"), (3, ""), (4, "")] := by
  decide +kernel

end Nc

end Waterjet
