import Mathlib.Data.List.Infix
import Waterjet.Host.Standard
import Waterjet.Proofs.Retention
import Waterjet.Proofs.Usable
import Waterjet.Proofs.Validation

/-! Which speed an estimate uses. What is explicit wins, even if it is zero and therefore refused;
then the override, then the mean of the feed rates in force at the cuts, and the fallback where none
of these is a sample. The motion lines of the text say by themselves which feed rates those are. -/
namespace Waterjet
open Scalar Nc Number

section Feeds

variable {α : Type} [Scalar α]

/-- A motion line cuts unless its code is that of a rapid. -/
def Fields.cuts (own : Fields α) : Bool := own.g.any fun g => !(g == ((0 : Nat) : α))

/-- The feed rate that holds after motion lines: the last one given, or zero. -/
def feedInForce (history : List (Fields α)) : α := (lastValue (·.f) history).getD ((0 : Nat) : α)

/-- The feed rates that hold at the cuts among motion lines, each after its own line. -/
def feedsInForce (path : List (Fields α)) : List α :=
  (path.inits.filter fun history => history.getLast?.any Fields.cuts).map feedInForce

/-- The feed rates that a program cuts with. Zero is no feed rate, and a rapid has none. -/
def Nc.programmedFeeds (α : Type) [Scalar α] (lines : List Line) : List α :=
  (feedsInForce ((motionLines α lines).map Line.fields)).filter fun feed =>
    !(feed == ((0 : Nat) : α))

theorem feedsInForce_concat (path : List (Fields α)) (own : Fields α) :
    feedsInForce (path ++ [own]) =
      feedsInForce path ++ if own.cuts then [feedInForce (path ++ [own])] else [] := by
  have hinits : (path ++ [own]).inits = path.inits ++ [path ++ [own]] :=
    List.inits_append path [own]
  unfold feedsInForce
  rw [hinits, List.filter_append, List.map_append, List.filter_singleton, List.getLast?_concat,
    Option.any_some]
  cases own.cuts <;> rfl

theorem Command.kind_of_ofNumber? {g : α} {command : Command} (h : ofNumber? g = some command) :
    (command.kind == .cutting) = !(g == ((0 : Nat) : α)) := by
  unfold ofNumber? at h
  cases hzero : g == ((0 : Nat) : α) with
  | true =>
    rw [hzero, if_pos rfl, Option.some.injEq] at h
    rw [← h]
    rfl
  | false =>
    rw [hzero, if_neg Bool.false_ne_true] at h
    split at h
    · cases h; rfl
    split at h
    · cases h; rfl
    split at h
    · cases h; rfl
    · cases h

theorem Fields.cuts_of_command {own : Fields α} {command : Command}
    (h : own.g.bind Command.ofNumber? = some command) :
    own.cuts = (command.kind == .cutting) := by
  obtain ⟨g, hg, hnumber⟩ := Option.bind_eq_some_iff.mp h
  rw [cuts, hg, Option.any_some, Command.kind_of_ofNumber? hnumber]

namespace Modal

/-- A cut adds the feed rate that holds after its own line. -/
theorem programmedFeed?_move (ms : List (Motion α)) (m : Motion α)
    (hcommand : m.fields.g.bind Command.ofNumber? = some m.command) (n : Int) :
    (Tally.programmedFeed? ((start.after ms).move m.fields m.command n)).toList =
      (if m.fields.cuts then [feedInForce ((ms ++ [m]).map Motion.fields)] else []).filter
        fun feed => !(feed == ((0 : Nat) : α)) := by
  have hcut := (start.after ms).isCutting_move m.fields m.command n
  rw [← Fields.cuts_of_command hcommand] at hcut
  unfold Tally.programmedFeed?
  cases hcuts : m.fields.cuts with
  | false =>
    rw [Move.feed?_of_not_cutting _ (hcut.trans hcuts)]
    rfl
  | true =>
    have hfeed : (start.after ms).nextFeed m.fields = (start.after (ms ++ [m])).feed := by
      rw [after_concat]
      rfl
    rw [feed?_move _ _ _ _ (hcut.trans hcuts), hfeed, feed_after]
    exact Option.toList_filter

theorem cuttingFeeds_course (ms : List (Motion α))
    (hms : ∀ m ∈ ms, m.fields.g.bind Command.ofNumber? = some m.command) :
    cuttingFeeds (start.course 0 ms) =
      (feedsInForce (ms.map Motion.fields)).filter fun feed => !(feed == ((0 : Nat) : α)) := by
  induction ms using List.reverseRecOn with
  | nil => rfl
  | append_singleton ms m ih =>
    have hm := hms m (List.mem_append_right ms List.mem_cons_self)
    rw [course_concat, cuttingFeeds_concat, ih fun m hm => hms m (List.mem_append_left _ hm),
      programmedFeed?_move ms m hm, List.map_append, List.map_singleton, feedsInForce_concat,
      List.filter_append]

end Modal

/-- The samples that a program collects on its path are those of its motion lines. -/
theorem Program.cuttingFeeds_parse (text : String) :
    cuttingFeeds (parse text : Program α).moves = programmedFeeds α (lines text) := by
  rw [moves_parse, programmedFeeds, ← map_fields_motions]
  apply Modal.cuttingFeeds_course
  intro m hm
  obtain ⟨line, -, hline⟩ := List.mem_filterMap.mp hm
  exact (Line.fields_of_motion? hline).2

/-- A rapid sets the feed rate of the cut after it; a cut at zero and a line without motion add
nothing. -/
example :
    letI : Host := .standard
    programmedFeeds Float (lines "G00 X1 F300\nG01 X2\nG02 X3 F0\nM03 F9\nG01 X4 F100") =
      [300, 100] := by
  decide +kernel

end Feeds

namespace Program

/-- The average speed of a program has no say without a sample, whatever it is. -/
theorem estimate?_of_feedSamples_zero {p : Program Float} (h : p.feedSamples = 0) (average : Float)
    (c : Config.Given) (time speed : Option Value) :
    { p with averageSpeed := average }.estimate? c time speed = p.estimate? c time speed := by
  have himplied : { p with averageSpeed := average }.impliedSpeed c = p.impliedSpeed c := by
    unfold impliedSpeed
    dsimp only
    rw [h]
    rfl
  unfold estimate? inputs
  rw [himplied]

/-- A given speed leaves nothing of the program but its pierces and its cutting length. -/
theorem estimate?_congr {p o : Program Float} (hpierces : o.pierces = p.pierces)
    (hlength : o.cuttingLength = p.cuttingLength) {c : Config.Given} {speed : Option Value}
    (h : speed.isSome = true ∨ c.speedOverride.isSome = true) (time : Option Value) :
    o.estimate? c time speed = p.estimate? c time speed := by
  have hspeed : speed.getD (o.impliedSpeed c) = speed.getD (p.impliedSpeed c) := by
    cases speed with
    | some v => rfl
    | none =>
      obtain h | h := h
      · cases h
      · obtain ⟨v, hv⟩ := Option.isSome_iff_exists.mp h
        unfold impliedSpeed
        rw [hv]
  unfold estimate? inputs
  rw [hpierces, hlength, hspeed]

variable [Host]

/-- The length of the cuts of a program is no negative zero and not below zero, if it is a
number. -/
theorem cuttingLength_cases (text : String) :
    let p : Program Float := parse text
    p.cuttingLength.isNaN = true ∨ IsAtLeast 0 p.cuttingLength := by
  intro p
  rw [(measured_parse text).cuttingLength]
  cases hnan : (chordSum (p.moves.filter (·.isCutting))).isNaN with
  | true => exact .inl rfl
  | false => exact .inr (isAtLeast_chordSum hnan)

theorem isNegative_cuttingLength (text : String) :
    Quantity.isNegative (.double (parse text : Program Float).cuttingLength) = false := by
  apply decide_eq_false
  intro hlt
  have hnan : (parse text : Program Float).cuttingLength.isNaN = false :=
    isNaN_of_le (le_of_lt hlt)
  obtain h | h := cuttingLength_cases text
  · rw [h] at hnan
    cases hnan
  · exact not_lt_of_le isNaN_zero hnan h.nonneg hlt

theorem eq_of_beq_cuttingLength {text other : String}
    (h : ((parse other : Program Float).cuttingLength ==
      (parse text : Program Float).cuttingLength) = true) :
    (parse other : Program Float).cuttingLength = (parse text : Program Float).cuttingLength := by
  have hle := le_of_beq h
  obtain hnan | hother := cuttingLength_cases other
  · rw [isNaN_of_le hle] at hnan
    cases hnan
  obtain hnan | htext := cuttingLength_cases text
  · rw [isNaN_of_le_right hle] at hnan
    cases hnan
  exact hother.eq_of_beq htext h

/-- What is explicit wins over the override and the override over the mean of the feed rates; the
fallback is for a program without any. -/
def effectiveSpeed (feeds : List Float) (c : Config.Given) (speed : Option Value) : Value :=
  speed.getD <| c.speedOverride.getD <|
    if feeds = [] then c.fallbackSpeed
    else .double (feeds.foldl (· + ·) 0 / Float.ofNat feeds.length)

theorem impliedSpeed_parse (text : String) (c : Config.Given) :
    (parse text : Program Float).impliedSpeed c =
      effectiveSpeed (programmedFeeds Float (lines text)) c none := by
  have hmeasured := measured_parse text
  have hsamples := hmeasured.feedSamples
  have haverage := hmeasured.averageSpeed
  rw [cuttingFeeds_parse] at hsamples haverage
  unfold impliedSpeed effectiveSpeed
  rw [hsamples, haverage, Option.getD_none, meanFeed]
  cases c.speedOverride with
  | some v => rfl
  | none => cases programmedFeeds Float (lines text) <;> rfl

theorem estimate?_parse (text : String) (c : Config.Given) (time speed : Option Value) :
    (parse text : Program Float).estimate? c time speed =
      Calculation.make? ⟨.integer (parse text : Program Float).pierces, time.getD c.pierceTime,
        .double (parse text : Program Float).cuttingLength,
        effectiveSpeed (programmedFeeds Float (lines text)) c speed⟩ := by
  unfold estimate? inputs
  rw [impliedSpeed_parse]
  cases speed <;> rfl

/-- Where an estimate takes its inputs from, for every text, all settings and all explicit values.
Zero counts as given: as a time it is used, and as a speed it is refused. The average speed of a
program without feed rates has no say, and where a speed is given or set to override the program's
nothing of the program counts but its pierces and its cutting length. -/
theorem estimate?_precedence (text : String) :
    let p : Program Float := parse text
    let feeds := programmedFeeds Float (lines text)
    (∀ (c : Config.Given) (time speed : Option Value), p.estimate? c time speed =
      Calculation.make? ⟨.integer p.pierces, time.getD c.pierceTime, .double p.cuttingLength,
        effectiveSpeed feeds c speed⟩) ∧
    (∀ (c : Config.Given) (time : Option Value) (q : Quantity), q.isNonpositive = true →
      (∃ i, p.estimate? c time (some (.number q)) = .error (.invalid i)) ∧
      ∀ t, time.getD c.pierceTime = .number t → t.isNegative = false →
        p.estimate? c time (some (.number q)) = .error (.invalid (.notPositive .speed q))) ∧
    (feeds = [] → p.averageSpeed = 50 ∧
      ∀ (average : Float) (c : Config.Given) (time speed : Option Value),
        { p with averageSpeed := average }.estimate? c time speed = p.estimate? c time speed) ∧
    ∀ other : String,
      let o : Program Float := parse other
      o.pierces = p.pierces →
      o.cuttingLength = p.cuttingLength ∨ (o.cuttingLength == p.cuttingLength) = true →
      ∀ (c : Config.Given) (time speed : Option Value),
        speed.isSome = true ∨ c.speedOverride.isSome = true →
        o.estimate? c time speed = p.estimate? c time speed := by
  intro p feeds
  refine ⟨estimate?_parse text, ?_, ?_, ?_⟩
  · intro c time q hq
    have hestimate := estimate?_parse text c time (some (.number q))
    rw [hestimate]
    constructor
    · apply Calculation.exists_make?_eq_invalid_iff.mpr
      exact (Inputs.faults_ne_nil_iff _).mpr (.inr (.inr ⟨q, rfl, hq⟩))
    · intro t ht htime
      let inputs : Inputs Quantity := ⟨.integer p.pierces, t, .double p.cuttingLength, q⟩
      have hcount : inputs.pierceCount.isNegative = false := by simp [inputs, Quantity.isNegative]
      have hfaults : inputs.asGiven.faults = if inputs.speed.isNonpositive then _ else [] :=
        inputs.faults_of_nonnegative hcount htime (isNegative_cuttingLength text)
      rw [ht]
      change Calculation.make? inputs.asGiven = _
      rw [Calculation.make?_eq_invalid_iff_head?, hfaults, if_pos hq]
      rfl
  · intro hnone
    have hmeasured := measured_parse text
    have hfeeds : cuttingFeeds p.moves = [] := (cuttingFeeds_parse text).trans hnone
    have hsamples : p.feedSamples = 0 := by
      rw [hmeasured.feedSamples, hfeeds]
      rfl
    refine ⟨?_, estimate?_of_feedSamples_zero hsamples⟩
    rw [hmeasured.averageSpeed, hfeeds]
    rfl
  · intro other o hpierces hlength c time speed hgiven
    have hlength : o.cuttingLength = p.cuttingLength := hlength.elim id eq_of_beq_cuttingLength
    exact estimate?_congr hpierces hlength hgiven time

end Program

end Waterjet
