import Waterjet.Estimate.Job
import Waterjet.Host.Standard
import Waterjet.Proofs.Hull
import Waterjet.Proofs.Measures
import Waterjet.Proofs.Pieces
import Waterjet.Proofs.Validation

/-! What an estimate can do with the measures of a program. The number of pierces is never negative.
The cutting length is not negative either, but a cut along infinite coordinates may have no length.
The average speed is positive unless a feed rate is negative, as long as the sum of the feed rates
grows with each of them; an estimate refuses a program for nothing but its average speed. -/
namespace Waterjet
open Nc Number

section Lengths

/-- The same infinity at both ends. -/
def StaysInfinite (a b : Float) : Prop := ∃ negative, a = infinity negative ∧ b = infinity negative

/-- A move with no length: it stays at infinity along one axis, and the other one does not make it
infinitely long. -/
def Move.IsUnmeasurable (m : Move Float) : Prop :=
  StaysInfinite m.finish.x m.start.x ∧ ¬ (m.finish.y - m.start.y).isInf = true ∨
    StaysInfinite m.finish.y m.start.y ∧ ¬ (m.finish.x - m.start.x).isInf = true

variable [Host]

theorem Move.isNaN_chord_iff {m : Move Float} (hstart : m.start.IsNumeric)
    (hfinish : m.finish.IsNumeric) : m.chord.isNaN = true ↔ m.IsUnmeasurable := by
  have hx := isNaN_sub_iff hfinish.x hstart.x
  have hy := isNaN_sub_iff hfinish.y hstart.y
  have hchord : m.chord =
      hypot Host.norm (m.finish.x - m.start.x) (m.finish.y - m.start.y) := rfl
  rw [hchord, isNaN_hypot_iff, hx, hy]
  rfl

section Sum

variable {moves : List (Move Float)}

theorem isAtLeast_chord : ∀ x ∈ moves.map fun m => m.chord, x.isNaN = false → IsAtLeast 0 x :=
  List.forall_mem_map.mpr fun _ _ => isAtLeast_hypot

theorem isNaN_chordSum_iff (h : ∀ q ∈ corners moves, q.IsNumeric) :
    (chordSum moves).isNaN = true ↔ ∃ m ∈ moves, m.IsUnmeasurable := by
  have hmoves (m : Move Float) (hm : m ∈ moves) : m.chord.isNaN = true ↔ m.IsUnmeasurable := by
    apply Move.isNaN_chord_iff
    · exact h _ (List.mem_flatMap.mpr ⟨m, hm, by simp⟩)
    · exact h _ (List.mem_flatMap.mpr ⟨m, hm, by simp⟩)
  have hsum : (chordSum moves).isNaN = true ↔ (0 : Float).isNaN = true ∨ _ :=
    isNaN_foldl_iff (fun _ => isAtLeast_zero) isAtLeast_chord
  rw [hsum]
  constructor
  · rintro (hzero | ⟨x, hx, hnan⟩)
    · rw [isNaN_zero] at hzero
      cases hzero
    · obtain ⟨m, hm, rfl⟩ := List.mem_map.mp hx
      exact ⟨m, hm, (hmoves m hm).mp hnan⟩
  · rintro ⟨m, hm, hlost⟩
    exact .inr ⟨m.chord, List.mem_map_of_mem hm, (hmoves m hm).mpr hlost⟩

/-- A sum of lengths that is a number is not below zero, and no negative zero. -/
theorem isAtLeast_chordSum (h : (chordSum moves).isNaN = false) : IsAtLeast 0 (chordSum moves) := by
  have hsum : (chordSum moves).isNaN = true ↔ (0 : Float).isNaN = true ∨ _ :=
    isNaN_foldl_iff (fun _ => isAtLeast_zero) isAtLeast_chord
  have hnumbers := (not_or.mp (mt hsum.mpr (Bool.eq_false_iff.mp h))).2
  have hbound := isAtLeast_zero.foldl (j := 0) fun x hx =>
    isAtLeast_chord x hx (Bool.eq_false_iff.mpr fun hnan => hnumbers ⟨x, hx, hnan⟩)
  exact hbound.mono (Nat.zero_le _)

theorem chordSum_nonneg (h : (chordSum moves).isNaN = false) : 0 ≤ chordSum moves :=
  (isAtLeast_chordSum h).nonneg

end Sum

end Lengths

section Feeds

variable [Host]

/-- No feed rate of a program is anything but a number. -/
theorem Modal.isNaN_feed_course {s : Modal Float} (hs : s.feed.isNaN = false) (n : Nat)
    {ms : List (Motion Float)}
    (hms : ∀ m ∈ ms, ∀ feed, m.fields.f = some feed → feed.isNaN = false) :
    ∀ m ∈ s.course n ms, ∀ feed, m.feed? = some feed → feed.isNaN = false := by
  induction ms generalizing s n with
  | nil => exact fun m hm => absurd hm List.not_mem_nil
  | cons m ms ih =>
    have hnext : (s.nextFeed m.fields).isNaN = false := by
      unfold nextFeed
      cases hf : m.fields.f with
      | none => exact hs
      | some feed => exact hms m List.mem_cons_self feed hf
    intro move hmove feed hfeed
    rcases List.mem_cons.mp hmove with rfl | hmove
    · cases hcutting : (s.move m.fields m.command n).isCutting with
      | false =>
        rw [Move.feed?_of_not_cutting _ hcutting] at hfeed
        cases hfeed
      | true =>
        rw [s.feed?_move _ _ _ hcutting, Option.some.injEq] at hfeed
        rw [← hfeed]
        exact hnext
    · have hfeeds := fun m hm => hms m (List.mem_cons_of_mem _ hm)
      exact ih (s := s.obey m) hnext (n + 1) hfeeds move hmove feed hfeed

theorem Program.isNaN_feed_parse (text : String) : ∀ m ∈ (parse text : Program Float).moves,
    ∀ feed, m.feed? = some feed → feed.isNaN = false := by
  rw [moves_parse]
  apply Modal.isNaN_feed_course
  · change (Float.ofNat 0).isNaN = false
    decide
  · intro m hm feed hfeed
    obtain ⟨line, -, hline⟩ := List.mem_filterMap.mp hm
    rw [(Line.fields_of_motion? hline).1] at hfeed
    exact Line.isNaN_of_value? hfeed

theorem mem_cuttingFeeds {moves : List (Move Float)} {feed : Float}
    (h : feed ∈ cuttingFeeds moves) :
    (∃ m ∈ moves, m.feed? = some feed) ∧ (feed == 0) = false := by
  obtain ⟨hfeed, hzero⟩ := List.mem_filter.mp h
  obtain ⟨m, hm, hfeed⟩ := List.mem_filterMap.mp hfeed
  exact ⟨⟨m, (List.mem_filter.mp hm).1, hfeed⟩, Bool.not_eq_true' _ |>.mp hzero⟩

/-- The mean of positive feed rates is positive, as far as their sum is sure to grow. -/
theorem meanFeed_pos {feeds : List Float} (h : ∀ feed ∈ feeds, IsAtLeast 1 feed)
    (hlength : feeds.length < 2 ^ 54 - 1) : IsAtLeast 1 (meanFeed feeds) := by
  unfold meanFeed
  split
  · have hfifty : IsAtLeast 1 (Float.ofNat 50) :=
      isAtLeast_one (by decide) (by decide) (by decide)
    exact hfifty
  next hne =>
    have hsum := isAtLeast_zero.foldl h
    rw [Nat.one_mul, Nat.zero_add] at hsum
    exact hsum.div_ofNat (List.length_pos_iff.mpr hne) hlength

end Feeds

/-- A count and doubles that are not below zero are refused for the speed alone. -/
theorem Inputs.validate?_eq_error_iff (n : Nat) {time length : Float} (htime : ¬ time < 0)
    (hlength : ¬ length < 0) (speed : Float) (i : InvalidInput) :
    validate? ⟨.integer n, .double time, .double length, .double speed⟩ = .error i ↔
      speed ≤ 0 ∧ i = .notPositive .speed (.double speed) := by
  let inputs : Inputs Quantity := ⟨.integer n, .double time, .double length, .double speed⟩
  have hcount : inputs.pierceCount.isNegative = false := by simp [inputs, Quantity.isNegative]
  have hfaults : inputs.asGiven.faults = if inputs.speed.isNonpositive then _ else [] :=
    inputs.faults_of_nonnegative hcount (decide_eq_false htime) (decide_eq_false hlength)
  have hspeed : inputs.speed.isNonpositive = true ↔ speed ≤ 0 := decide_eq_true_iff
  change inputs.asGiven.validate? = .error i ↔ _
  rw [← errorOf?_eq_some_iff, errorOf?_validate?, hfaults, ← hspeed]
  cases inputs.speed.isNonpositive with
  | true => simp [inputs, eq_comm]
  | false => simp

namespace Program

/-- The default settings leave the speed to the program, if it has set one. -/
theorem inputs_default (p : Program Float) : p.inputs Config.default.given none none =
    ⟨.integer p.pierces, .double 0.5, .double p.cuttingLength,
      .double (if p.feedSamples = 0 then 50.0 else p.averageSpeed)⟩ := by
  have himplied : p.impliedSpeed Config.default.given =
      if p.feedSamples = 0 then .double 50.0 else .double p.averageSpeed := rfl
  unfold inputs
  rw [himplied]
  split <;> rfl

/-- By the default settings a program whose cutting length is not negative is refused for its
average speed alone. -/
theorem estimate?_eq_invalid_iff {p : Program Float} (h : ¬ p.cuttingLength < 0)
    (i : InvalidInput) : p.estimate? Config.default.given none none = .error (.invalid i) ↔
      p.feedSamples ≠ 0 ∧ p.averageSpeed ≤ 0 ∧
        i = .notPositive .speed (.double p.averageSpeed) := by
  rw [estimate?, inputs_default, Calculation.make?_eq_invalid_iff,
    Inputs.validate?_eq_error_iff p.pierces (by decide) h]
  split
  next hzero =>
    have hfifty : ¬ (50.0 : Float) ≤ 0 := by decide
    simp [hzero, hfifty]
  next hsome => simp [hsome]

theorem measured_parse [Host] (text : String) : (parse text : Program Float).Measured := by
  rw [← ofMoves_parse]
  generalize (parse text : Program Float).moves = moves
  have hholds : (Tally.ofMoves moves).Holds moves := Tally.Holds.empty.foldl moves
  have hmoves : (Tally.ofMoves moves).moves.toList = moves := Tally.toList_moves_foldl .empty moves
  have hpierces : (Tally.ofMoves moves).pierces = moves.countP (·.pierce) :=
    (Tally.pierces_foldl .empty moves).trans (Nat.zero_add _)
  exact ofTally_measured hholds hmoves hpierces _

end Program

section Least

/-- The least positive double. -/
def leastDouble : Float := ofBits false 1

/-- Up to the fifty-third power of two there is a double for one more of the least. -/
theorem add_leastDouble (k : Nat) : ofBits false (min k (2 ^ 53)) + leastDouble =
    ofBits false (min (k + 1) (2 ^ 53)) := by
  have hleast : decode leastDouble = .finite ⟨false, 1, minExponent⟩ := by decide
  obtain ⟨d, hd, hnegative, hvalue⟩ : ∃ d, decode (ofBits false (min k (2 ^ 53))) = .finite d ∧
      d.negative = false ∧ d.magnitude.value = (units (min k (2 ^ 53))).value := by
    rcases Nat.lt_or_ge k (2 ^ 53) with hlt | hge
    · have hfinite : k < infinityBits := hlt.trans (by decide)
      have hunits : Dyadic.Normal ⟨false, k, minExponent⟩ := ⟨hlt, le_rfl, .inr rfl⟩
      obtain ⟨d, hd, hnegative, hnormal, hbits⟩ := exists_decode_ofBits hfinite
      have hsame : nearestBits d.magnitude = nearestBits (units k) :=
        hbits.trans (nearestBits_units hlt.le).symm
      rw [min_eq_left hlt.le]
      exact ⟨d, hd, hnegative, hnormal.value_eq hunits hsame (hbits.trans_lt hfinite)⟩
    · rw [min_eq_right hge]
      refine ⟨⟨false, 2 ^ 52, 1 + minExponent⟩, by decide, rfl, ?_⟩
      rw [Dyadic.value_magnitude, value_units, zpow_add₀ two_ne_zero]
      norm_num
      ring
  have hsum : (units (min k (2 ^ 53) + 1)).value =
      d.magnitude.value + (Dyadic.magnitude ⟨false, 1, minExponent⟩).value := by
    rw [hvalue, value_units, value_units, Dyadic.value_magnitude]
    push_cast
    ring
  rw [add_eq_ofRatio hd hleast hnegative rfl (den_units_pos _) hsum, Number.ofRatio]
  rcases Nat.lt_or_ge k (2 ^ 53) with hlt | hge
  · rw [min_eq_left hlt.le, min_eq_left hlt, nearestBits_units hlt]
  · rw [min_eq_right hge, min_eq_right (by omega)]
    decide +kernel

theorem foldl_leastDouble (k n : Nat) :
    (List.replicate n leastDouble).foldl (· + ·) (ofBits false (min k (2 ^ 53))) =
      ofBits false (min (k + n) (2 ^ 53)) := by
  induction n generalizing k with
  | zero => rfl
  | succ n ih =>
    rw [List.replicate_succ, List.foldl_cons, add_leastDouble, ih, Nat.add_assoc, Nat.add_comm 1]

theorem cuttingFeeds_course_replicate [Host] {m : Motion Float} {feed : Float}
    (hcommand : m.command = .linear) (hfeed : m.fields.f = some feed) (hne : (feed == 0) = false)
    (s : Modal Float) (k n : Nat) :
    cuttingFeeds (s.course k (List.replicate n m)) = List.replicate n feed := by
  induction n generalizing s k with
  | zero => rfl
  | succ n ih =>
    have hnext : s.nextFeed m.fields = feed := by rw [Modal.nextFeed, hfeed, Option.getD_some]
    have hcutting : (s.move m.fields m.command k).isCutting = true := by rw [hcommand]; rfl
    have hmove := s.feed?_move m.fields m.command k hcutting
    have hkept : (!(feed == ((0 : Nat) : Float))) = true := by
      rw [Bool.not_eq_true']
      exact hne
    rw [hnext] at hmove
    rw [List.replicate_succ, Modal.course, List.replicate_succ, ← ih (s.obey m) (k + 1)]
    unfold cuttingFeeds
    rw [List.filter_cons_of_pos hcutting, List.filterMap_cons_some hmove, List.filter_cons,
      if_pos hkept]

/-- The average speed of cuts at the least feed rate. -/
theorem Program.averageSpeed_least {n : Nat} (hn : 0 < n) :
    letI : Host := .standard
    (parse (ofPieces (List.replicate n "G01 F5e-324".toList)) : Program Float).averageSpeed =
      ofBits false (min n (2 ^ 53)) / Float.ofNat n := by
  let host : Host := .standard
  let line := "G01 F5e-324"
  obtain ⟨m, hm⟩ : ∃ m, (motions (lines line) : List (Motion Float)) = [m] :=
    List.length_eq_one_iff.mp (by decide)
  have hcommand : (motions (lines line) : List (Motion Float)).map (·.command) = [.linear] := by
    decide
  have hfeed : (motions (lines line) : List (Motion Float)).map (·.fields.f) =
      [some leastDouble] := by
    decide +kernel
  rw [hm, List.map_singleton, List.singleton_inj] at hcommand hfeed
  have hmotions : (motions (lines (ofPieces (List.replicate n line.toList))) :
      List (Motion Float)) = List.replicate n m := by
    have hline : String.ofList line.toList = line := String.ofList_toList
    rw [motions_ofPieces, List.flatMap_replicate, hline, hm]
    simp
  have hfeeds : cuttingFeeds (parse (ofPieces (List.replicate n line.toList)) :
      Program Float).moves = List.replicate n leastDouble := by
    rw [moves_parse, hmotions]
    exact cuttingFeeds_course_replicate hcommand hfeed (by decide) ..
  have hne : List.replicate n leastDouble ≠ [] := by simpa using hn.ne'
  have hsum := foldl_leastDouble 0 n
  rw [Nat.zero_min, Nat.zero_add] at hsum
  rw [(measured_parse _).averageSpeed, hfeeds, meanFeed, if_neg hne, List.length_replicate, ← hsum]
  rfl

end Least

namespace Program

/-- The number of pierces of a program is not negative. Its cutting length is not negative either,
unless a cut along infinite coordinates has no length. Its average speed is positive if no feed rate
is negative, up to the number of feed rates that still add up; and an estimate by the default
settings refuses the program exactly if it has set a feed rate and its average speed is not
positive. -/
theorem parse_usable [Host] (text : String) :
    let p : Program Float := parse text
    0 ≤ (p.pierces : Int) ∧
    (p.cuttingLength.isNaN = true ↔ ∃ m ∈ p.moves, m.isCutting = true ∧ m.IsUnmeasurable) ∧
    (p.cuttingLength.isNaN = false → 0 ≤ p.cuttingLength) ∧
    ((∀ m ∈ p.moves, ∀ feed, m.feed? = some feed → ¬ feed < 0) → p.feedSamples < 2 ^ 54 - 1 →
      0 < p.averageSpeed ∧ p.averageSpeed.isNaN = false ∧
        ∀ i, p.estimate? Config.default.given none none ≠ .error (.invalid i)) ∧
    ∀ i, p.estimate? Config.default.given none none = .error (.invalid i) ↔
      p.feedSamples ≠ 0 ∧ p.averageSpeed ≤ 0 ∧
        i = .notPositive .speed (.double p.averageSpeed) := by
  intro p
  have hmeasured : p.Measured := measured_parse text
  have hcorners : ∀ q ∈ corners (p.moves.filter (·.isCutting)), q.IsNumeric := by
    intro q hq
    obtain ⟨m, hm, hq⟩ := List.mem_flatMap.mp hq
    exact isNumeric_parse text q (List.mem_flatMap.mpr ⟨m, (List.mem_filter.mp hm).1, hq⟩)
  have hlength : p.cuttingLength.isNaN = false → 0 ≤ p.cuttingLength := by
    rw [hmeasured.cuttingLength]
    exact chordSum_nonneg
  have hnegative : ¬ p.cuttingLength < 0 := by
    cases hnan : p.cuttingLength.isNaN with
    | false => exact not_lt_of_le isNaN_zero hnan (hlength hnan)
    | true =>
      rw [Float.isNaN_eq_decide_eq_nan, decide_eq_true_eq] at hnan
      rw [hnan]
      decide
  have hrefused := estimate?_eq_invalid_iff hnegative
  refine ⟨Int.natCast_nonneg _, ?_, hlength, ?_, hrefused⟩
  · rw [hmeasured.cuttingLength, isNaN_chordSum_iff hcorners]
    simp only [List.mem_filter, and_assoc]
  · intro hfeeds hsamples
    have hpositive : ∀ feed ∈ cuttingFeeds p.moves, IsAtLeast 1 feed := by
      intro feed hfeed
      obtain ⟨⟨m, hm, hfeed⟩, hzero⟩ := mem_cuttingFeeds hfeed
      exact isAtLeast_one (isNaN_feed_parse text m hm feed hfeed) hzero (hfeeds m hm feed hfeed)
    have hmean : IsAtLeast 1 p.averageSpeed := by
      rw [hmeasured.feedSamples] at hsamples
      rw [hmeasured.averageSpeed]
      exact meanFeed_pos hpositive hsamples
    refine ⟨hmean.pos, hmean.isNaN, ?_⟩
    intro i hi
    have hspeed : p.averageSpeed ≤ 0 := ((hrefused i).mp hi).2.1
    exact not_lt_of_le hmean.isNaN isNaN_zero hspeed hmean.pos

/-- A negative feed rate makes the average speed negative, and the estimate refuses the program. A
cut from one point at infinity to another has no length. And least feed rates that no longer add up
have no mean above zero. -/
theorem parse_not_usable :
    letI : Host := .standard
    (let p : Program Float := parse "G01 X1 F-5\n"
     p.averageSpeed < 0 ∧ p.estimate? Config.default.given none none =
       .error (.invalid (.notPositive .speed (.double p.averageSpeed)))) ∧
    (parse "G01 X1e999\nG01 Y1\n" : Program Float).cuttingLength.isNaN = true ∧
    (parse (ofPieces (List.replicate (2 ^ 54 - 1) "G01 F5e-324".toList)) :
      Program Float).averageSpeed = 0 := by
  let host : Host := .standard
  refine ⟨⟨by decide +kernel, ?_⟩, by decide +kernel, ?_⟩
  · apply (estimate?_eq_invalid_iff (by decide +kernel) _).mpr
    exact ⟨by decide +kernel, by decide +kernel, rfl⟩
  · exact (averageSpeed_least (n := 2 ^ 54 - 1) (by decide)).trans (by decide)

end Program

end Waterjet
