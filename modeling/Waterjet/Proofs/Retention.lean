import Waterjet.Proofs.Course

/-! Words that stay in force. An axis or a feed rate holds until a later motion line gives it anew,
so the state after a run is a look-up of the last value given; the offsets of an arc are looked up
in its own line only. Lines that make no motion take no part in the look-up. -/
namespace Waterjet
open Scalar Nc

variable {α : Type} [Scalar α]

/-- The last value given, if any was. -/
def lastValue {β : Type} (word : Fields α → Option β) (history : List (Fields α)) : Option β :=
  (history.filterMap word).getLast?

omit [Scalar α] in
theorem lastValue_cons {β : Type} (word : Fields α → Option β) (own : Fields α)
    (rest : List (Fields α)) :
    lastValue word (own :: rest) = (lastValue word rest).or (word own) := by
  unfold lastValue
  cases h : word own with
  | none => rw [List.filterMap_cons_none h, Option.or_none]
  | some v =>
    rw [List.filterMap_cons_some h, List.getLast?_cons]
    cases (rest.filterMap word).getLast? <;> rfl

omit [Scalar α] in
theorem lastValue_map {β γ : Type} (word : Fields α → Option β) (f : β → γ)
    (history : List (Fields α)) :
    lastValue (fun own => (word own).map f) history = (lastValue word history).map f := by
  unfold lastValue
  rw [← List.map_filterMap, List.getLast?_map]

/-- The number of a command as a preparatory code. -/
def Command.number : Command → Nat
  | .rapid => 0
  | .linear => 1
  | .clockwiseArc => 2
  | .counterclockwiseArc => 3

theorem Command.beq_number_of_ofNumber? {g : α} {command : Command}
    (h : ofNumber? g = some command) : (g == (command.number : α)) = true := by
  unfold ofNumber? at h
  split at h
  · cases h; assumption
  split at h
  · cases h; assumption
  split at h
  · cases h; assumption
  split at h
  · cases h; assumption
  · cases h

/-- Of the two arcs, the code 2 is the clockwise one. -/
theorem Command.eq_clockwiseArc_iff {g : α} {command : Command} (h : ofNumber? g = some command)
    (hrapid : command ≠ .rapid) (hlinear : command ≠ .linear) :
    command = .clockwiseArc ↔ (g == ((2 : Nat) : α)) = true := by
  unfold ofNumber? at h
  split at h
  · exact absurd (Option.some.inj h).symm hrapid
  split at h
  · exact absurd (Option.some.inj h).symm hlinear
  split at h
  · next h2 =>
    cases h
    exact iff_of_true rfl h2
  · next h2 =>
    split at h
    · cases h
      exact iff_of_false (fun heq => nomatch heq) h2
    · cases h

namespace Modal

omit [Scalar α] in
/-- A component that each motion sets or keeps is, after a run, the last value set. -/
theorem after_eq_lastValue {β : Type} (get : Modal α → β) (word : Fields α → Option β)
    (h : ∀ s (m : Motion α), get (s.obey m) = (word m.fields).getD (get s))
    (s : Modal α) (ms : List (Motion α)) :
    get (s.after ms) = (lastValue word (ms.map Motion.fields)).getD (get s) := by
  induction ms generalizing s with
  | nil => rfl
  | cons m ms ih =>
    have hcons : s.after (m :: ms) = (s.obey m).after ms := rfl
    rw [hcons, ih, h, List.map_cons, lastValue_cons, Option.getD_or]

theorem x_after (ms : List (Motion α)) :
    (start.after ms).position.x = (lastValue (·.x) (ms.map Motion.fields)).getD (0 : Nat) :=
  after_eq_lastValue (·.position.x) (·.x) (fun _ _ => rfl) start ms

theorem y_after (ms : List (Motion α)) :
    (start.after ms).position.y = (lastValue (·.y) (ms.map Motion.fields)).getD (0 : Nat) :=
  after_eq_lastValue (·.position.y) (·.y) (fun _ _ => rfl) start ms

/-- The height is known from the start on. -/
theorem z_after (ms : List (Motion α)) :
    (start.after ms).position.z =
      some ((lastValue (·.z) (ms.map Motion.fields)).getD (0 : Nat)) := by
  have hstep (s : Modal α) (m : Motion α) :
      (s.obey m).position.z = (m.fields.z.map some).getD s.position.z := by
    change m.fields.z.or s.position.z = _
    cases m.fields.z <;> rfl
  rw [after_eq_lastValue (·.position.z) (fun own => own.z.map some) hstep, lastValue_map]
  cases lastValue (·.z) (ms.map Motion.fields) <;> rfl

theorem feed_after (ms : List (Motion α)) :
    (start.after ms).feed = (lastValue (·.f) (ms.map Motion.fields)).getD (0 : Nat) :=
  after_eq_lastValue (·.feed) (·.f) (fun _ _ => rfl) start ms

end Modal

/-- What an arc owes to its own line. -/
structure Arc.Own (start : Point α) (own : Fields α) (clockwise : Bool)
    (circle : Option (Arc α)) : Prop where
  direction : ∃ g, own.g = some g ∧ clockwise = (g == ((2 : Nat) : α))
  present : circle.isSome = true ↔ own.i.isSome = true ∧ own.j.isSome = true
  center : ∀ arc, circle = some arc → ∃ i j, own.i = some i ∧ own.j = some j ∧
    arc.center = ⟨start.x + i, start.y + j, none⟩ ∧ arc.clockwise = clockwise

/-- What a move owes to the motion lines up to its own: modal words come from the whole history,
the command and the offsets of an arc from the own line. -/
structure Move.Retains (move : Move α) (history : List (Fields α)) (own : Fields α) : Prop where
  command : ∃ g, own.g = some g ∧ (g == (move.command.number : α)) = true
  x : move.finish.x = (lastValue (·.x) history).getD (0 : Nat)
  y : move.finish.y = (lastValue (·.y) history).getD (0 : Nat)
  z : move.finish.z = some ((lastValue (·.z) history).getD (0 : Nat))
  feed : move.isCutting = true → move.feed? = some ((lastValue (·.f) history).getD (0 : Nat))
  arc : ∀ feed clockwise circle, move.drive = .arc feed clockwise circle →
    Arc.Own move.start own clockwise circle

theorem Arc.own_resolve? (start finish : Point α) {own : Fields α} {g : α} (hg : own.g = some g)
    (clockwise : Bool) (hclockwise : clockwise = (g == ((2 : Nat) : α))) :
    Arc.Own start own clockwise (resolve? start finish own.i own.j clockwise) where
  direction := ⟨g, hg, hclockwise⟩
  present := by cases own.i <;> cases own.j <;> simp [resolve?]
  center arc harc := by
    cases hi : own.i with
    | none => simp [resolve?, hi] at harc
    | some i =>
      cases hj : own.j with
      | none => simp [resolve?, hi, hj] at harc
      | some j =>
        simp only [resolve?, hi, hj, Option.pure_def, Option.bind_eq_bind, Option.bind_some,
          Option.some.injEq] at harc
        subst harc
        exact ⟨i, j, rfl, rfl, rfl, rfl⟩

/-- The move of a motion after others retains what their fields say. -/
theorem Modal.retains_move (ms : List (Motion α)) (m : Motion α)
    (hcommand : m.fields.g.bind Command.ofNumber? = some m.command) (n : Int) :
    ((start.after ms).move m.fields m.command n).Retains ((ms ++ [m]).map Motion.fields)
      m.fields := by
  obtain ⟨g, hg, hnumber⟩ := Option.bind_eq_some_iff.mp hcommand
  have hafter : start.after (ms ++ [m]) = (start.after ms).obey m := after_concat start ms m
  have hposition : ((start.after ms).move m.fields m.command n).finish =
      (start.after (ms ++ [m])).position := by rw [hafter]; rfl
  have hfeed : (start.after ms).nextFeed m.fields = (start.after (ms ++ [m])).feed := by
    rw [hafter]; rfl
  constructor
  · refine ⟨g, hg, ?_⟩
    rw [command_move]
    exact Command.beq_number_of_ofNumber? hnumber
  · rw [hposition, x_after]
  · rw [hposition, y_after]
  · rw [hposition, z_after]
  · intro hcutting
    rw [feed?_move _ _ _ _ hcutting, hfeed, feed_after]
  · intro feed clockwise circle hdrive
    have harc := Command.eq_clockwiseArc_iff hnumber
    cases hkind : m.command with
    | rapid => simp [move, drive, hkind] at hdrive
    | linear => simp [move, drive, hkind] at hdrive
    | clockwiseArc =>
      simp only [move, drive, hkind, Drive.arc.injEq] at hdrive
      obtain ⟨-, rfl, rfl⟩ := hdrive
      have htwo := (harc (by simp [hkind]) (by simp [hkind])).mp hkind
      exact Arc.own_resolve? _ _ hg true htwo.symm
    | counterclockwiseArc =>
      simp only [move, drive, hkind, Drive.arc.injEq] at hdrive
      obtain ⟨-, rfl, rfl⟩ := hdrive
      have htwo : ¬ (g == ((2 : Nat) : α)) = true := fun h =>
        nomatch hkind.symm.trans ((harc (by simp [hkind]) (by simp [hkind])).mpr h)
      exact Arc.own_resolve? _ _ hg false (Bool.eq_false_iff.mpr htwo).symm

/-- Modal meaning of a whole program: its moves are its motion lines in order, and each retains
what the motion lines up to its own have said last. -/
theorem Program.parse_retains (text : String) :
    let path := motionLines α (lines text)
    (parse text : Program α).moves.length = path.length ∧
      ∀ (k : Nat) (line : Line) (move : Move α), path[k]? = some line →
        (parse text).moves[k]? = some move →
        move.Retains ((path.take (k + 1)).map Line.fields) line.fields := by
  intro path
  rw [moves_parse]
  constructor
  · rw [Modal.length_course, length_motionLines]
  · intro k line move hline hmove
    have hmotion : (motions (lines text) : List (Motion α))[k]?.map some = some line.motion? := by
      rw [← List.getElem?_map, ← map_motion?_motionLines, List.getElem?_map, hline]
      rfl
    obtain ⟨m, hm, hsome⟩ := Option.map_eq_some_iff.mp hmotion
    obtain ⟨hfields, hcommand⟩ := Line.fields_of_motion? hsome.symm
    have htake : (motions (lines text) : List (Motion α)).take (k + 1) =
        (motions (lines text)).take k ++ [m] := by
      rw [List.take_add_one, hm]
      rfl
    rw [Modal.getElem?_course, hm] at hmove
    cases Option.some.inj hmove
    have h := Modal.retains_move ((motions (lines text)).take k) m hcommand (0 + k : Nat)
    rw [← htake, List.map_take, map_fields_motions, ← List.map_take] at h
    rw [← hfields]
    exact h

end Waterjet
