import Waterjet.Host.Standard
import Waterjet.Proofs.Usable

/-! A line that is written twice. What a line sets is set already when the same line comes again, so
the second time the state stays as it is, and a move of the line ends where it starts. In a program
such a move has no length and reaches no new place: it makes the moves after it later by one number
and changes nothing else of them, nor a length, a pierce or the extents. -/
namespace Waterjet
open Scalar Nc Number

section Step

variable {α : Type} [Scalar α]

/-- The same command once more, from where the move has ended. -/
structure Move.Again (m again : Move α) : Prop where
  command : again.command = m.command
  feed : again.feed? = m.feed?
  start : again.start = m.finish
  finish : again.finish = m.finish
  pierce : again.pierce = false

namespace Modal

omit [Scalar α] in
theorem target_advance (s : Modal α) (fields : Fields α) (kind : MoveKind) :
    (s.advance fields kind).target fields = s.target fields := by
  obtain ⟨g, x, y, z, f, i, j⟩ := fields
  unfold advance target
  cases x <;> cases y <;> cases z <;> rfl

omit [Scalar α] in
theorem nextFeed_advance (s : Modal α) (fields : Fields α) (kind : MoveKind) :
    (s.advance fields kind).nextFeed fields = s.nextFeed fields := by
  unfold advance nextFeed
  cases fields.f <;> rfl

omit [Scalar α] in
/-- What is set is set. -/
theorem advance_advance (s : Modal α) (fields : Fields α) (kind : MoveKind) :
    (s.advance fields kind).advance fields kind = s.advance fields kind := by
  have hadvance (t : Modal α) :
      t.advance fields kind = ⟨t.target fields, kind, t.nextFeed fields⟩ := rfl
  rw [hadvance (s.advance fields kind), target_advance, nextFeed_advance, hadvance]

omit [Scalar α] in
theorem obey_obey (s : Modal α) (m : Motion α) : (s.obey m).obey m = s.obey m :=
  s.advance_advance m.fields m.command.kind

theorem again_move (s : Modal α) (fields : Fields α) (command : Command) (m n : Int) :
    (s.move fields command m).Again ((s.advance fields command.kind).move fields command n) where
  command := by rw [command_move, command_move]
  feed := by
    have hfeed := s.nextFeed_advance fields command.kind
    cases command with
    | rapid => rfl
    | linear => exact congrArg some hfeed
    | clockwiseArc => exact congrArg some hfeed
    | counterclockwiseArc => exact congrArg some hfeed
  start := rfl
  finish := s.target_advance fields command.kind
  pierce := by cases command <;> rfl

/-- What a line comes to when it is interpreted again where it has led to at first. -/
def Settles (line : Line) : Except MalformedWord (Modal α × Option (Move α)) → Prop
  | .error fault => ∀ (t : Modal α) (n : Int), t.interpretLine? line n = .error fault
  | .ok (s, none) => ∀ n : Int, s.interpretLine? line n = .ok (s, none)
  | .ok (s, some move) =>
    ∀ n : Int, ∃ again, s.interpretLine? line n = .ok (s, some again) ∧ move.Again again

theorem settles_interpretLine? (s : Modal α) (line : Line) (m : Int) :
    Settles line (s.interpretLine? line m) := by
  cases hfault : line.fault? with
  | some fault =>
    rw [interpretLine?_of_fault s hfault]
    exact fun t n => interpretLine?_of_fault t hfault n
  | none =>
    rw [interpretLine?_of_none s hfault]
    cases hcommand : (line.fields : Fields α).g.bind Command.ofNumber? with
    | none =>
      have hidle (t : Modal α) (n : Int) : t.interpret line.fields n = (t, none) := by
        rw [interpret, hcommand]
      rw [hidle]
      exact fun n => by rw [interpretLine?_of_none s hfault, hidle]
    | some command =>
      have hmove (t : Modal α) (n : Int) : t.interpret line.fields n =
          (t.advance line.fields command.kind, some (t.move line.fields command n)) := by
        rw [interpret, hcommand]
      rw [hmove]
      intro n
      refine ⟨_, ?_, s.again_move line.fields command m n⟩
      rw [interpretLine?_of_none _ hfault, hmove, advance_advance]

end Modal

end Step

section Later

variable {α : Type} [Scalar α]

/-- The move with a number that is higher by `k`. -/
def Move.later (k : Nat) (m : Move α) : Move α := { m with sequence := m.sequence + k }

namespace Modal

theorem course_add (s : Modal α) (n k : Nat) (ms : List (Motion α)) :
    s.course (n + k) ms = (s.course n ms).map (Move.later k) := by
  induction ms generalizing s n with
  | nil => rfl
  | cons m ms ih =>
    have hn : n + k + 1 = n + 1 + k := by omega
    rw [course, hn, ih]
    rfl

omit [Scalar α] in
theorem after_repeat (s : Modal α) (front back : List (Motion α)) (own : Option (Motion α)) :
    s.after (front ++ own.toList ++ (own.toList ++ back)) =
      s.after (front ++ own.toList ++ back) := by
  have hown (t : Modal α) : (t.after own.toList).after own.toList = t.after own.toList := by
    cases own with
    | none => rfl
    | some m => exact t.obey_obey m
  simp only [after_append, hown]

/-- A motion that comes twice makes one move more, and moves the ones after it up. -/
theorem course_repeat (s : Modal α) (n : Nat) (front back : List (Motion α))
    (own : Option (Motion α)) :
    ∃ again : Option (Move α), again.isSome = own.isSome ∧
      (∀ move ∈ again, ∃ last, (s.course n (front ++ own.toList)).getLast? = some last ∧
        last.Again move) ∧
      s.course n (front ++ own.toList ++ (own.toList ++ back)) =
        s.course n (front ++ own.toList) ++ again.toList ++
          ((s.after (front ++ own.toList)).course (n + (front ++ own.toList).length) back).map
            (Move.later again.toList.length) := by
  cases own with
  | none =>
    refine ⟨none, rfl, nofun, ?_⟩
    have hlater : (Move.later 0 : Move α → Move α) = id := funext fun m => by simp [Move.later]
    simp only [Option.toList_none, List.append_nil, List.nil_append, List.length_nil, hlater,
      List.map_id]
    exact s.course_append n front back
  | some m =>
    simp only [Option.toList_some]
    let t := s.after (front ++ [m])
    let k := n + (front ++ [m]).length
    have hlast : s.course n (front ++ [m]) =
        s.course n front ++ [(s.after front).move m.fields m.command (n + front.length : Nat)] :=
      s.course_append n front [m]
    have ht : t = (s.after front).obey m := s.after_concat front m
    have hstate : t.obey m = t := by rw [ht, obey_obey]
    have hcourse : t.course k ([m] ++ back) =
        t.move m.fields m.command k :: (t.course k back).map (Move.later 1) := by
      have hcons : t.course k ([m] ++ back) =
          t.move m.fields m.command k :: (t.obey m).course (k + 1) back := rfl
      rw [hcons, hstate, course_add]
    refine ⟨some (t.move m.fields m.command k), rfl, ?_, ?_⟩
    · rintro move hmove
      rw [Option.mem_some] at hmove
      refine ⟨_, by rw [hlast, List.getLast?_concat], ?_⟩
      rw [← hmove, ht]
      exact (s.after front).again_move m.fields m.command _ _
    · rw [s.course_append n (front ++ [m]), hcourse, Option.toList_some, List.append_assoc]
      rfl

end Modal

namespace Tally

/-- The totals that a move without length or pierce leaves alone. -/
structure SameTotals (t u : Tally α) : Prop where
  cuttingLength : t.cuttingLength = u.cuttingLength
  rapidLength : t.rapidLength = u.rapidLength
  pierces : t.pierces = u.pierces
  extents : t.extents = u.extents

namespace SameTotals

omit [Scalar α] in
theorem refl (t : Tally α) : t.SameTotals t := ⟨rfl, rfl, rfl, rfl⟩

theorem add_later {t u : Tally α} (h : t.SameTotals u) (k : Nat) (m : Move α) :
    (t.add m).SameTotals (u.add (m.later k)) := by
  have hcutting : (m.later k).isCutting = m.isCutting := rfl
  have hchord : (m.later k).chord = m.chord := rfl
  have hpierce : (m.later k).pierce = m.pierce := rfl
  have hextend (e : Option (Extents α)) : extend e (m.later k) = extend e m := rfl
  constructor
  · unfold Tally.add
    rw [hcutting, hchord, h.cuttingLength]
  · unfold Tally.add
    rw [hcutting, hchord, h.rapidLength]
  · unfold Tally.add
    rw [hpierce, h.pierces]
  · unfold Tally.add
    rw [hextend, h.extents]

theorem foldl_later {t u : Tally α} (h : t.SameTotals u) (k : Nat) (moves : List (Move α)) :
    (moves.foldl Tally.add t).SameTotals ((moves.map (Move.later k)).foldl Tally.add u) := by
  induction moves generalizing t u with
  | nil => exact h
  | cons m moves ih => exact ih (h.add_later k m)

end SameTotals

end Tally

end Later

section Standing

theorem lt_irrefl_of_isNaN {x : Float} (hx : x.isNaN = false) : ¬ x < x := by
  rw [lt_iff_rank hx hx]
  exact lt_irrefl _

variable [Host]

/-- A place that has been reached is inside. -/
theorem Extents.extend_extend {p : Point Float} (hx : p.x.isNaN = false) (hy : p.y.isNaN = false)
    (e : Extents Float) : (e.extend p).extend p = e.extend p := by
  have hlower {x : Float} (h : x.isNaN = false) (a : Float) : lower (lower a x) x = lower a x := by
    unfold lower
    cases hbelow : below x a with
    | true =>
      have hself : below x x = false := decide_eq_false (lt_irrefl_of_isNaN h)
      simp [hself]
    | false => simp [hbelow]
  have hupper {x : Float} (h : x.isNaN = false) (a : Float) : upper (upper a x) x = upper a x := by
    unfold upper
    cases hbelow : below a x with
    | true =>
      have hself : below x x = false := decide_eq_false (lt_irrefl_of_isNaN h)
      simp [hself]
    | false => simp [hbelow]
  unfold extend
  simp only [hlower hx, hlower hy, hupper hx, hupper hy]

/-- A move that stays where it is has no length. -/
theorem Move.chord_of_again {m again : Move Float} (h : m.Again again)
    (hx : m.finish.x.isFinite = true) (hy : m.finish.y.isFinite = true) : again.chord = 0 := by
  have hchord : again.chord =
      Number.hypot Host.norm (again.finish.x - again.start.x)
        (again.finish.y - again.start.y) := rfl
  obtain ⟨a, ha⟩ := (isFinite_iff _).mp hx
  obtain ⟨b, hb⟩ := (isFinite_iff _).mp hy
  rw [hchord, h.start, h.finish, sub_self_eq_zero ha, sub_self_eq_zero hb, hypot_zero_zero]

namespace Tally

variable {moves : List (Move Float)} (hnumeric : ∀ q ∈ corners moves, q.IsNumeric)
  (hfinite : ∀ m ∈ moves, m.finish.x.isFinite = true ∧ m.finish.y.isFinite = true)
include hnumeric hfinite

/-- Lengths to finite places add up to a number. -/
theorem isAtLeast_chordSum_filter (p : Move Float → Bool) :
    IsAtLeast 0 (chordSum (moves.filter p)) := by
  have hcorners : ∀ q ∈ corners (moves.filter p), q.IsNumeric := by
    intro q hq
    obtain ⟨m, hm, hq⟩ := List.mem_flatMap.mp hq
    exact hnumeric q (List.mem_flatMap.mpr ⟨m, (List.mem_filter.mp hm).1, hq⟩)
  have hnever {a b : Float} (h : a.isFinite = true) : ¬ StaysInfinite a b := by
    rintro ⟨negative, rfl, -⟩
    cases negative <;> exact absurd h (by decide)
  apply isAtLeast_chordSum
  rw [← Bool.not_eq_true, isNaN_chordSum_iff hcorners]
  rintro ⟨m, hm, hx | hy⟩
  · exact hnever (hfinite m (List.mem_filter.mp hm).1).1 hx.1
  · exact hnever (hfinite m (List.mem_filter.mp hm).1).2 hy.1

/-- The last move made again leaves the totals as they are. -/
theorem sameTotals_again {m again : Move Float} (hm : moves.getLast? = some m)
    (h : m.Again again) : (ofMoves moves).SameTotals ((ofMoves moves).add again) := by
  have hmem : m ∈ moves := List.mem_of_getLast? hm
  have hchord : again.chord = 0 := Move.chord_of_again h (hfinite m hmem).1 (hfinite m hmem).2
  have hholds : (ofMoves moves).Holds moves := Holds.empty.foldl moves
  have hpoint : m.finish.IsNumeric :=
    hnumeric _ (List.mem_flatMap.mpr ⟨m, hmem, List.mem_cons_of_mem _ List.mem_cons_self⟩)
  constructor
  · have hlength := isAtLeast_chordSum_filter hnumeric hfinite (·.isCutting)
    rw [← hholds.cuttingLength] at hlength
    unfold Tally.add
    rw [hchord, hlength.add_zero, ite_self]
  · have hlength := isAtLeast_chordSum_filter hnumeric hfinite (·.isRapid)
    rw [← hholds.rapidLength] at hlength
    unfold Tally.add
    rw [hchord, hlength.add_zero, ite_self]
  · unfold Tally.add
    rw [h.pierce]
    rfl
  · obtain ⟨front, rfl⟩ := List.getLast?_eq_some_iff.mp hm
    have hextents : (ofMoves (front ++ [m])).extents = some (extend (ofMoves front).extents m) := by
      rw [ofMoves, List.foldl_append]
      rfl
    have hagain : ((ofMoves (front ++ [m])).add again).extents =
        some (extend (ofMoves (front ++ [m])).extents again) := rfl
    rw [hagain, hextents]
    unfold extend
    rw [Option.getD_some, h.start, h.finish, Extents.extend_extend hpoint.x hpoint.y,
      Extents.extend_extend hpoint.x hpoint.y]

/-- Nor do the moves behind it make a difference, whatever their numbers. -/
theorem sameTotals_repeat {again : Option (Move Float)}
    (h : ∀ move ∈ again, ∃ last, moves.getLast? = some last ∧ last.Again move) (k : Nat)
    (later : List (Move Float)) :
    (ofMoves (moves ++ later)).SameTotals
      (ofMoves (moves ++ again.toList ++ later.map (Move.later k))) := by
  have happend (ms ns : List (Move Float)) : ofMoves (ms ++ ns) = ns.foldl Tally.add (ofMoves ms) :=
    List.foldl_append
  rw [happend, happend, happend]
  apply SameTotals.foldl_later
  cases again with
  | none => exact .refl _
  | some again =>
    obtain ⟨last, hlast, hagain⟩ := h again rfl
    exact sameTotals_again hnumeric hfinite hlast hagain

end Tally

end Standing

namespace Nc

variable {α : Type} [Scalar α]

/-- The text with its `k`-th line written twice. Lines are counted from zero, and behind the last
of them there is nothing to write again. -/
def repeatLine (k : Nat) (text : String) : String :=
  ofPieces ((pieces text).take (k + 1) ++ (pieces text).drop k)

theorem pieces_repeatLine (k : Nat) (text : String) :
    pieces (repeatLine k text) = (pieces text).take (k + 1) ++ (pieces text).drop k := by
  have hne : (pieces text).take (k + 1) ++ (pieces text).drop k ≠ [] := by
    have hpieces : pieces text ≠ [] := List.splitOn_ne_nil '\n' _
    simp [hpieces]
  rw [repeatLine, pieces_ofPieces hne]
  conv => rhs; rw [← List.flatMap_singleton' (_ ++ _)]
  apply List.flatMap_congr
  intro piece hpiece
  apply pieces_ofList
  rcases List.mem_append.mp hpiece with h | h
  · exact not_mem_of_mem_pieces (List.mem_of_mem_take h)
  · exact not_mem_of_mem_pieces (List.mem_of_mem_drop h)

/-- Piece by piece a text says what it says line by line; a last piece that is no line says
nothing. -/
theorem map_motion?_pieces (text : String) : ∃ silent : List (Option (Motion α)),
    (∀ o ∈ silent, o = none) ∧
      ((pieces text).map fun piece => (lineOf 1 piece).motion?) =
        (lines text).map Line.motion? ++ silent := by
  have hlines : (lines text).map (Line.motion? : Line → Option (Motion α)) =
      (Text.physicalLines text.toList).map fun piece => (lineOf 1 piece).motion? := by
    have hfst : Text.physicalLines text.toList =
        ((Text.physicalLines text.toList).zipIdx 1).map Prod.fst := (List.zipIdx_map_fst 1 _).symm
    conv => rhs; rw [hfst, List.map_map]
    rw [lines_eq_map, List.map_map]
    apply List.map_congr_left
    rintro ⟨piece, n⟩ -
    dsimp only [Function.comp_apply]
    rw [motion?_lineOf n 1]
  have hempty : ((lineOf 1 []).motion? : Option (Motion α)) = none :=
    Line.motion?_of_not_command rfl
  rcases pieces_eq text with h | h
  · exact ⟨[], nofun, by rw [hlines, h, List.append_nil]⟩
  · refine ⟨[none], fun _ => List.mem_singleton.mp, ?_⟩
    rw [hlines, h, List.map_append, List.map_singleton, hempty]

theorem filterMap_eq_reduceOption {β γ : Type} (f : β → Option γ) (xs : List β) :
    xs.filterMap f = (xs.map f).reduceOption := by
  rw [List.reduceOption, List.filterMap_map, Function.id_comp]

theorem filterMap_take_pieces (k : Nat) (text : String) :
    (((pieces text).take k).filterMap fun piece => (lineOf 1 piece).motion?) =
      (motions ((lines text).take k) : List (Motion α)) := by
  obtain ⟨silent, hsilent, hpieces⟩ := map_motion?_pieces (α := α) text
  have hnil (n : Nat) : (silent.take n).reduceOption = [] :=
    List.filterMap_eq_nil_iff.mpr fun o ho => hsilent o (List.mem_of_mem_take ho)
  rw [motions, filterMap_eq_reduceOption, filterMap_eq_reduceOption, List.map_take, hpieces,
    List.take_append, List.reduceOption_append, hnil, List.append_nil, List.map_take]

theorem filterMap_drop_pieces (k : Nat) (text : String) :
    (((pieces text).drop k).filterMap fun piece => (lineOf 1 piece).motion?) =
      (motions ((lines text).drop k) : List (Motion α)) := by
  obtain ⟨silent, hsilent, hpieces⟩ := map_motion?_pieces (α := α) text
  have hnil (n : Nat) : (silent.drop n).reduceOption = [] :=
    List.filterMap_eq_nil_iff.mpr fun o ho => hsilent o (List.mem_of_mem_drop ho)
  rw [motions, filterMap_eq_reduceOption, filterMap_eq_reduceOption, List.map_drop, hpieces,
    List.drop_append, List.reduceOption_append, hnil, List.append_nil, List.map_drop]

theorem motions_repeatLine (k : Nat) (text : String) :
    (motions (lines (repeatLine k text)) : List (Motion α)) =
      motions ((lines text).take (k + 1)) ++ motions ((lines text).drop k) := by
  rw [motions_lines, pieces_repeatLine, List.filterMap_append, filterMap_take_pieces,
    filterMap_drop_pieces]

theorem motions_toList (line? : Option Line) :
    (motions line?.toList : List (Motion α)) = (line?.bind Line.motion?).toList := by
  cases line? with
  | none => rfl
  | some line => cases h : (line.motion? : Option (Motion α)) <;> simp [motions, h]

section Own

variable (ls : List Line) (k : Nat)

theorem motions_take_add_one : (motions (ls.take (k + 1)) : List (Motion α)) =
    motions (ls.take k) ++ (ls[k]?.bind Line.motion?).toList := by
  rw [List.take_add_one, motions_append, motions_toList]

theorem motions_drop : (motions (ls.drop k) : List (Motion α)) =
    (ls[k]?.bind Line.motion?).toList ++ motions (ls.drop (k + 1)) := by
  rw [List.drop_eq_getElem?_toList_append, motions_append, motions_toList]

theorem motions_eq_parts : (motions ls : List (Motion α)) =
    motions (ls.take k) ++ (ls[k]?.bind Line.motion?).toList ++ motions (ls.drop (k + 1)) := by
  rw [← motions_take_add_one, ← motions_append, List.take_append_drop]

end Own

end Nc

namespace Program

section Doubles

variable [Host]

/-- What is left of a program when its `k`-th line is written twice: the final state, the totals
and the moves, apart from the one that the line makes again and the numbers of those behind it. -/
structure Repeats (k : Nat) (text : String) : Prop where
  modal : (Reader.start.run (lines (repeatLine k text)) : Reader Float).modal =
    (Reader.start.run (lines text) : Reader Float).modal
  cuttingLength : (parse (repeatLine k text) : Program Float).cuttingLength =
    (parse text : Program Float).cuttingLength
  rapidLength : (parse (repeatLine k text) : Program Float).rapidLength =
    (parse text : Program Float).rapidLength
  pierces : (parse (repeatLine k text) : Program Float).pierces =
    (parse text : Program Float).pierces
  extents : (parse (repeatLine k text) : Program Float).extents =
    (parse text : Program Float).extents
  moves : ∃ (earlier later : List (Move Float)) (again : Option (Move Float)),
    earlier = (Reader.start.run ((lines text).take (k + 1)) : Reader Float).program.moves ∧
    (parse text : Program Float).moves = earlier ++ later ∧
    (parse (repeatLine k text) : Program Float).moves =
      earlier ++ again.toList ++ later.map (Move.later again.toList.length) ∧
    again.isSome = ((lines text)[k]?.any (Line.isMotion Float)) ∧
    ∀ move ∈ again, ∃ last, earlier.getLast? = some last ∧ last.Again move

theorem totals_ofTally {t u : Tally Float} (h : t.SameTotals u) (ds es : List Diagnostic) :
    (ofTally u es).cuttingLength = (ofTally t ds).cuttingLength ∧
    (ofTally u es).rapidLength = (ofTally t ds).rapidLength ∧
    (ofTally u es).pierces = (ofTally t ds).pierces ∧
    (ofTally u es).extents = (ofTally t ds).extents :=
  ⟨h.cuttingLength.symm, h.rapidLength.symm, h.pierces.symm,
    congrArg (·.getD .zero) h.extents.symm⟩

theorem repeats (k : Nat) {text : String}
    (hfinite : ∀ m ∈ (parse text : Program Float).moves,
      m.finish.x.isFinite = true ∧ m.finish.y.isFinite = true) : Repeats k text := by
  let front : List (Motion Float) := motions ((lines text).take k)
  let own : Option (Motion Float) := (lines text)[k]?.bind Line.motion?
  let back : List (Motion Float) := motions ((lines text).drop (k + 1))
  have honce : (motions (lines text) : List (Motion Float)) = front ++ own.toList ++ back :=
    motions_eq_parts (lines text) k
  have htwice : (motions (lines (repeatLine k text)) : List (Motion Float)) =
      front ++ own.toList ++ (own.toList ++ back) := by
    rw [motions_repeatLine, motions_take_add_one, motions_drop]
  let earlier := (Modal.start : Modal Float).course 0 (front ++ own.toList)
  let later := ((Modal.start : Modal Float).after (front ++ own.toList)).course
    (0 + (front ++ own.toList).length) back
  obtain ⟨again, hsome, hagain, hcourse⟩ :=
    (Modal.start : Modal Float).course_repeat 0 front back own
  have hmoves : (Modal.start : Modal Float).course 0 (motions (lines text)) = earlier ++ later := by
    rw [honce, Modal.course_append]
  have hparse : (parse text : Program Float).moves = earlier ++ later := by
    rw [moves_parse, hmoves]
  have hnumeric : ∀ q ∈ corners earlier, q.IsNumeric := by
    intro q hq
    apply isNumeric_parse text q
    rw [hparse, corners, List.flatMap_append]
    exact List.mem_append_left _ hq
  have hplaces : ∀ m ∈ earlier, m.finish.x.isFinite = true ∧ m.finish.y.isFinite = true := by
    intro m hm
    apply hfinite
    rw [hparse]
    exact List.mem_append_left _ hm
  have htotals := Tally.sameTotals_repeat hnumeric hplaces hagain again.toList.length later
  rw [← hcourse, ← htwice, ← hmoves] at htotals
  obtain ⟨hcutting, hrapid, hpierces, hextents⟩ :=
    totals_ofTally htotals (notes (lines text)) (notes (lines (repeatLine k text)))
  rw [← ofMoves, ← ofMoves, ← parse_eq, ← parse_eq] at hcutting hrapid hpierces hextents
  refine ⟨?_, hcutting, hrapid, hpierces, hextents, earlier, later, again, ?_, hparse, ?_, ?_,
    hagain⟩
  · rw [Reader.run_eq, Reader.run_eq, htwice, honce]
    exact Modal.after_repeat _ front back own
  · rw [Reader.run_eq, motions_take_add_one]
    exact (moves_ofMoves _ []).symm
  · rw [moves_parse, htwice, hcourse]
  · rw [hsome, Option.isSome_bind]
    cases (lines text)[k]? with
    | none => rfl
    | some line => exact line.isSome_motion?

/-- A line that comes again where it has led to leads nowhere else. So a program to finite places
keeps its final state, its totals and the moves behind the line when any of its lines is written
twice. -/
theorem repeatLine_settles (α : Type) [Scalar α] :
    (∀ (s : Modal α) (line : Line) (n : Int), Modal.Settles line (s.interpretLine? line n)) ∧
    ∀ (text : String) (k : Nat), (∀ m ∈ (parse text : Program Float).moves,
      m.finish.x.isFinite = true ∧ m.finish.y.isFinite = true) → Repeats k text :=
  ⟨Modal.settles_interpretLine?, fun _ k => repeats k⟩

end Doubles

/-- An arc that is written twice, with a line behind it that is no move and one that is. -/
theorem repeatLine_settles_at_arc :
    letI : Host := .standard
    let text := "G01 X1 F5\nG02 X3 I1 J0\nM30\nG00 X0"
    (∀ m ∈ (parse text : Program Float).moves,
      m.finish.x.isFinite = true ∧ m.finish.y.isFinite = true) ∧
    repeatLine 1 text = "G01 X1 F5\nG02 X3 I1 J0\nG02 X3 I1 J0\nM30\nG00 X0" ∧
    (parse text : Program Float).moves.length = 3 ∧
    (parse (repeatLine 1 text) : Program Float).moves.length = 4 ∧
    Repeats 1 text := by
  let host : Host := .standard
  intro text
  have hfinite : ∀ m ∈ (parse text : Program Float).moves,
      m.finish.x.isFinite = true ∧ m.finish.y.isFinite = true := by decide +kernel
  refine ⟨hfinite, by decide +kernel, by decide +kernel, by decide +kernel, ?_⟩
  exact (repeatLine_settles Float).2 text 1 hfinite

end Program

end Waterjet
