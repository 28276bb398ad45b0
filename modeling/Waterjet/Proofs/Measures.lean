import Waterjet.Host.Standard
import Waterjet.Proofs.Pierces

/-! The measures of a path, without a tally. Each is a sum, a list or a count that the moves
determine by themselves, the sums from left to right. A tally holds them after every move, so the
measures of a program are found again from its path alone. -/
namespace Waterjet
open Scalar Nc

variable {α : Type} [Scalar α]

/-- The chords of moves in a row, added from left to right. -/
def chordSum (moves : List (Move α)) : α :=
  (moves.map fun m => m.chord).foldl (· + ·) ((0 : Nat) : α)

/-- The feed rates of the cuts among the moves, but for those that are still zero. -/
def cuttingFeeds (moves : List (Move α)) : List α :=
  ((moves.filter (·.isCutting)).filterMap (·.feed?)).filter fun feed => !(feed == ((0 : Nat) : α))

/-- The mean of feed rates, or fifty where there are none. -/
def meanFeed (feeds : List α) : α :=
  if feeds = [] then ((50 : Nat) : α)
  else feeds.foldl (· + ·) ((0 : Nat) : α) / ((feeds.length : Nat) : α)

section Concat

variable (moves : List (Move α)) (m : Move α)

theorem chordSum_concat : chordSum (moves ++ [m]) = chordSum moves + m.chord := by
  unfold chordSum
  rw [List.map_append, List.foldl_append]
  rfl

theorem chordSum_filter_concat (p : Move α → Bool) :
    chordSum ((moves ++ [m]).filter p) =
      if p m then chordSum (moves.filter p) + m.chord else chordSum (moves.filter p) := by
  rw [List.filter_append]
  cases hm : p m with
  | true => rw [List.filter_cons_of_pos hm, List.filter_nil, chordSum_concat, if_pos rfl]
  | false => simp [hm]

omit [Scalar α] in
/-- Only cuts have a feed rate. -/
theorem Move.feed?_of_not_cutting (h : m.isCutting = false) : m.feed? = none := by
  obtain ⟨segment, drive⟩ := m
  cases drive with
  | rapid => rfl
  | line feed => cases h
  | arc feed clockwise circle => cases clockwise <;> cases h

theorem cuttingFeeds_concat :
    cuttingFeeds (moves ++ [m]) = cuttingFeeds moves ++ (Tally.programmedFeed? m).toList := by
  have hlast : cuttingFeeds [m] = (Tally.programmedFeed? m).toList := by
    unfold cuttingFeeds Tally.programmedFeed?
    cases hm : m.isCutting with
    | false => simp [hm, m.feed?_of_not_cutting hm]
    | true =>
      cases hf : m.feed? with
      | none => simp [hm, hf]
      | some feed => cases hz : feed == ((0 : Nat) : α) <;> simp [hm, hf, hz, Option.filter]
  rw [← hlast]
  unfold cuttingFeeds
  rw [List.filter_append, List.filterMap_append, List.filter_append]

end Concat

/-- A tally that holds the sums and the feed rates of the moves. -/
structure Tally.Holds (t : Tally α) (moves : List (Move α)) : Prop where
  cuttingLength : t.cuttingLength = chordSum (moves.filter (·.isCutting))
  rapidLength : t.rapidLength = chordSum (moves.filter (·.isRapid))
  feeds : t.feeds.toList = cuttingFeeds moves

namespace Tally.Holds

theorem empty : Holds (.empty : Tally α) [] := ⟨rfl, rfl, rfl⟩

theorem add {t : Tally α} {moves : List (Move α)} (h : t.Holds moves) (m : Move α) :
    (t.add m).Holds (moves ++ [m]) := by
  constructor
  · rw [chordSum_filter_concat, ← h.cuttingLength]
    rfl
  · rw [chordSum_filter_concat, ← h.rapidLength, m.isRapid_eq]
    unfold Tally.add
    cases m.isCutting <;> rfl
  · rw [cuttingFeeds_concat, ← h.feeds]
    unfold Tally.add
    cases programmedFeed? m with
    | none => exact (List.append_nil _).symm
    | some feed => exact Array.toList_push

theorem foldl {t : Tally α} {done : List (Move α)} (h : t.Holds done) (moves : List (Move α)) :
    (moves.foldl Tally.add t).Holds (done ++ moves) := by
  induction moves generalizing t done with
  | nil => rwa [List.append_nil]
  | cons m moves ih =>
    have hrest := ih (h.add m)
    rwa [List.append_assoc, List.singleton_append] at hrest

end Tally.Holds

theorem Tally.averageSpeed_eq (t : Tally α) : t.averageSpeed = meanFeed t.feeds.toList := by
  obtain ⟨moves, cuttingLength, rapidLength, pierces, ⟨feeds⟩, extents⟩ := t
  unfold averageSpeed meanFeed
  cases feeds with
  | nil => rfl
  | cons feed feeds => simp

namespace Program

/-- Measures that are those of the program's own path. -/
structure Measured (p : Program α) : Prop where
  cuttingLength : p.cuttingLength = chordSum (p.moves.filter (·.isCutting))
  rapidLength : p.rapidLength = chordSum (p.moves.filter (·.isRapid))
  pierces : p.pierces = p.moves.countP (·.pierce)
  piercePoints : p.piercePoints.length = p.pierces
  feedSamples : p.feedSamples = (cuttingFeeds p.moves).length
  averageSpeed : p.averageSpeed = meanFeed (cuttingFeeds p.moves)
  kinds : p.cuttingMoves + p.rapidMoves = p.moves.length

omit [Scalar α] in
/-- Every move is of one kind. -/
theorem cuttingMoves_add_rapidMoves (p : Program α) :
    p.cuttingMoves + p.rapidMoves = p.moves.length := by
  have hrapid : (Move.isRapid : Move α → Bool) = fun m => !m.isCutting := funext Move.isRapid_eq
  unfold cuttingMoves rapidMoves
  rw [hrapid]
  simpa using (List.length_eq_countP_add_countP (Move.isCutting (α := α))).symm

theorem ofTally_measured {t : Tally α} {moves : List (Move α)} (h : t.Holds moves)
    (hmoves : t.moves.toList = moves) (hpierces : t.pierces = moves.countP (·.pierce))
    (ds : List Diagnostic) : (ofTally t ds).Measured := by
  subst hmoves
  constructor
  · exact h.cuttingLength
  · exact h.rapidLength
  · exact hpierces
  · exact (hpierces.trans List.countP_eq_length_filter).symm
  · exact Array.length_toList.symm.trans (congrArg List.length h.feeds)
  · exact t.averageSpeed_eq.trans (congrArg meanFeed h.feeds)
  · exact cuttingMoves_add_rapidMoves _

/-- A feed rate of zero is no sample, and a rapid has none. -/
example :
    letI : Host := .standard
    let p : Program Float := parse "G01 X1\nG01 X2 F300\nG00 X0 F500\nG03 X5 I1 J0 F100"
    p.feedSamples = 2 ∧ p.averageSpeed = 200 ∧ p.cuttingLength = 7 := by
  decide +kernel

end Program

end Waterjet
