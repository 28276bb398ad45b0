import Waterjet.Path.Program
import Waterjet.Proofs.Fields

/-! A program as a course of motions. By its words alone a line is a motion, a fault or neither.
The motions in a row make the path, whatever stands between them, and the faults in a row make the
diagnostics: reading a program is these two lists, and neither depends on the other. -/
namespace Waterjet
open Scalar Nc Number

variable {α : Type} [Scalar α]

/-- What a motion line says. -/
structure Motion (α : Type) where
  fields : Fields α
  command : Command

def Fields.motion? (fields : Fields α) : Option (Motion α) :=
  (fields.g.bind Command.ofNumber?).map fun command => ⟨fields, command⟩

/-- The motion of a line. A command that nothing is wrong with need not be one. -/
def Nc.Line.motion? (line : Line) : Option (Motion α) :=
  if line.isCommand && line.fault?.isNone then line.fields.motion? else none

/-- What is noted of a line. -/
def Nc.Line.diagnostic? (line : Line) : Option Diagnostic :=
  if line.isCommand then line.fault?.map fun m => ⟨line.number, line.body, m.message⟩ else none

def Nc.motions (lines : List Line) : List (Motion α) := lines.filterMap Line.motion?

def Nc.notes (lines : List Line) : List Diagnostic := lines.filterMap Line.diagnostic?

/-- Motion lines without recourse to the interpreter: commands in which each letter can be read and
the preparatory code is one of the four. -/
def Nc.Line.isMotion (α : Type) [Scalar α] (line : Line) : Bool :=
  line.isCommand && fieldLetters.all line.reads &&
    (line.fields : Fields α).g.any fun g => [0, 1, 2, 3].any fun (n : Nat) => g == (n : α)

def Nc.motionLines (α : Type) [Scalar α] (lines : List Line) : List Line :=
  lines.filter (Line.isMotion α)

theorem Command.isSome_ofNumber? (g : α) :
    (ofNumber? g).isSome = [0, 1, 2, 3].any fun (n : Nat) => g == (n : α) := by
  unfold ofNumber?
  simp only [List.any_cons, List.any_nil]
  cases g == ((0 : Nat) : α) <;> cases g == ((1 : Nat) : α) <;> cases g == ((2 : Nat) : α) <;>
    cases g == ((3 : Nat) : α) <;> rfl

theorem Fields.isSome_motion? (fields : Fields α) :
    fields.motion?.isSome =
      fields.g.any fun g => [0, 1, 2, 3].any fun (n : Nat) => g == (n : α) := by
  unfold motion?
  rw [Option.isSome_map]
  cases fields.g with
  | none => rfl
  | some g => exact Command.isSome_ofNumber? g

namespace Nc

theorem Line.isSome_motion? (line : Line) :
    (line.motion? : Option (Motion α)).isSome = line.isMotion α := by
  have hfault : line.fault?.isNone = fieldLetters.all line.reads := by
    rw [Bool.eq_iff_iff, Option.isNone_iff_eq_none, Line.fault?_eq_none_iff]
  unfold Line.motion? Line.isMotion
  rw [hfault]
  cases line.isCommand && fieldLetters.all line.reads with
  | false => rfl
  | true => exact Fields.isSome_motion? line.fields

theorem Line.fields_of_motion? {line : Line} {m : Motion α} (h : line.motion? = some m) :
    m.fields = line.fields ∧ m.fields.g.bind Command.ofNumber? = some m.command := by
  unfold Line.motion? at h
  split at h
  · obtain ⟨command, hcommand, rfl⟩ := Option.map_eq_some_iff.mp h
    exact ⟨rfl, hcommand⟩
  · cases h

theorem Line.motion?_of_not_command {line : Line} (h : line.isCommand = false) :
    (line.motion? : Option (Motion α)) = none := by
  rw [Line.motion?, h]
  rfl

theorem Line.motion?_of_command {line : Line} (h : line.isCommand = true)
    (hfault : line.fault? = none) : (line.motion? : Option (Motion α)) = line.fields.motion? := by
  rw [motion?, h, hfault]
  rfl

theorem Line.line_of_diagnostic? {line : Line} {d : Diagnostic} (h : line.diagnostic? = some d) :
    d.line = line.number := by
  unfold diagnostic? at h
  split at h
  · obtain ⟨m, -, rfl⟩ := Option.map_eq_some_iff.mp h
    rfl
  · cases h

section Cons

variable {line : Line} {lines : List Line}

theorem motions_cons_of_none (h : (line.motion? : Option (Motion α)) = none) :
    (motions (line :: lines) : List (Motion α)) = motions lines := List.filterMap_cons_none h

theorem motions_cons_of_some {m : Motion α} (h : line.motion? = some m) :
    motions (line :: lines) = m :: motions lines := List.filterMap_cons_some h

theorem notes_cons_of_none (h : line.diagnostic? = none) : notes (line :: lines) = notes lines :=
  List.filterMap_cons_none h

theorem notes_cons_of_some {d : Diagnostic} (h : line.diagnostic? = some d) :
    notes (line :: lines) = d :: notes lines := List.filterMap_cons_some h

end Cons

theorem motions_append (a b : List Line) :
    (motions (a ++ b) : List (Motion α)) = motions a ++ motions b := List.filterMap_append

/-- Motions and motion lines stand in the same order, one for one. -/
theorem map_motion?_motionLines (lines : List Line) :
    (motionLines α lines).map Line.motion? = (motions lines : List (Motion α)).map some := by
  have hmotion : Line.isMotion α = fun line => (line.motion? : Option (Motion α)).isSome :=
    funext fun line => line.isSome_motion?.symm
  rw [motions, motionLines, hmotion, List.map_filterMap_some_eq_filter_map_isSome, List.filter_map]
  rfl

theorem length_motionLines (lines : List Line) :
    (motionLines α lines).length = (motions lines : List (Motion α)).length := by
  simpa using congrArg List.length (map_motion?_motionLines (α := α) lines)

/-- Motions depend on their lines through the fields alone. -/
theorem motions_eq_filterMap (lines : List Line) :
    (motions lines : List (Motion α)) =
      ((motionLines α lines).map Line.fields).filterMap Fields.motion? := by
  rw [motions, motionLines, List.filterMap_map, List.filterMap_filter]
  congr
  funext line
  have hsome := line.isSome_motion? (α := α)
  unfold Line.motion? at hsome ⊢
  rw [← hsome]
  split
  · simp only [Function.comp_apply]
    cases (line.fields : Fields α).motion? <;> rfl
  · rfl

theorem map_fields_motions (lines : List Line) :
    (motions lines : List (Motion α)).map Motion.fields =
      (motionLines α lines).map Line.fields := by
  apply List.map_inj_right (f := some) (fun _ _ => Option.some.inj) |>.mp
  have h := congrArg (List.map (Option.map Motion.fields)) (map_motion?_motionLines (α := α) lines)
  rw [List.map_map, List.map_map] at h
  rw [List.map_map, List.map_map]
  refine h.symm.trans (List.map_congr_left fun line hline => ?_)
  have hsome := (List.mem_filter.mp hline).2
  rw [← Line.isSome_motion?] at hsome
  obtain ⟨m, hm⟩ := Option.isSome_iff_exists.mp hsome
  simp [hm, (Line.fields_of_motion? hm).1]

end Nc

namespace Modal

/-- The state after a motion. -/
def obey (s : Modal α) (m : Motion α) : Modal α := s.advance m.fields m.command.kind

def after (s : Modal α) (ms : List (Motion α)) : Modal α := ms.foldl obey s

/-- The moves of motions in a row, numbered from `n`. -/
def course (s : Modal α) (n : Nat) : List (Motion α) → List (Move α)
  | [] => []
  | m :: ms => s.move m.fields m.command n :: (s.obey m).course (n + 1) ms

omit [Scalar α] in
theorem after_concat (s : Modal α) (ms : List (Motion α)) (m : Motion α) :
    s.after (ms ++ [m]) = (s.after ms).obey m := by
  rw [after, List.foldl_append]
  rfl

theorem interpretLine?_of_fault (s : Modal α) {line : Line} {m : MalformedWord}
    (h : line.fault? = some m) (n : Int) : s.interpretLine? line n = .error m := by
  rw [interpretLine?, Fields.read?_eq, h]
  rfl

theorem interpretLine?_of_none (s : Modal α) {line : Line} (h : line.fault? = none) (n : Int) :
    s.interpretLine? line n = .ok (s.interpret line.fields n) := by
  rw [interpretLine?, Fields.read?_eq, h]
  rfl

/-- The three ways in which a command line can go, in any state. -/
theorem interpretLine?_cases (s : Modal α) {line : Line} (h : line.isCommand = true) (n : Int) :
    (∃ m, line.fault? = some m ∧ (line.motion? : Option (Motion α)) = none ∧
      s.interpretLine? line n = .error m) ∨
    (∃ m : Motion α, line.fault? = none ∧ line.motion? = some m ∧
      s.interpretLine? line n = .ok (s.obey m, some (s.move m.fields m.command n))) ∨
    (line.fault? = none ∧ (line.motion? : Option (Motion α)) = none ∧
      s.interpretLine? line n = .ok (s, none)) := by
  unfold Line.motion?
  rw [h, Bool.true_and]
  cases hfault : line.fault? with
  | some m => exact .inl ⟨m, rfl, rfl, interpretLine?_of_fault s hfault n⟩
  | none =>
    rw [interpretLine?_of_none s hfault]
    unfold interpret Fields.motion?
    cases (line.fields : Fields α).g.bind Command.ofNumber? with
    | some command => exact .inr (.inl ⟨⟨line.fields, command⟩, rfl, rfl, rfl⟩)
    | none => exact .inr (.inr ⟨rfl, rfl, rfl⟩)

@[simp] theorem command_move (s : Modal α) (fields : Fields α) (command : Command) (n : Int) :
    (s.move fields command n).command = command := by
  cases command <;> rfl

theorem feed?_move (s : Modal α) (fields : Fields α) (command : Command) (n : Int)
    (h : (s.move fields command n).isCutting = true) :
    (s.move fields command n).feed? = some (s.nextFeed fields) := by
  cases command with
  | rapid => cases h
  | linear => rfl
  | clockwiseArc => rfl
  | counterclockwiseArc => rfl

theorem length_course (s : Modal α) (n : Nat) (ms : List (Motion α)) :
    (s.course n ms).length = ms.length := by
  induction ms generalizing s n with
  | nil => rfl
  | cons m ms ih => rw [course, List.length_cons, List.length_cons, ih]

omit [Scalar α] in
theorem after_append (s : Modal α) (ms ns : List (Motion α)) :
    s.after (ms ++ ns) = (s.after ms).after ns := List.foldl_append

theorem course_append (s : Modal α) (n : Nat) (ms ns : List (Motion α)) :
    s.course n (ms ++ ns) = s.course n ms ++ (s.after ms).course (n + ms.length) ns := by
  induction ms generalizing s n with
  | nil => rfl
  | cons m ms ih =>
    have hn : n + 1 + ms.length = n + (ms.length + 1) := by omega
    rw [List.cons_append, course, ih, hn]
    rfl

theorem course_concat (s : Modal α) (n : Nat) (ms : List (Motion α)) (m : Motion α) :
    s.course n (ms ++ [m]) =
      s.course n ms ++ [(s.after ms).move m.fields m.command (n + ms.length : Nat)] :=
  s.course_append n ms [m]

/-- Each move is made from the state that the motions before it leave. -/
theorem getElem?_course (s : Modal α) (n : Nat) (ms : List (Motion α)) (k : Nat) :
    (s.course n ms)[k]? =
      ms[k]?.map fun m => (s.after (ms.take k)).move m.fields m.command (n + k : Nat) := by
  induction ms generalizing s n k with
  | nil => rfl
  | cons m ms ih =>
    cases k with
    | zero => rfl
    | succ k =>
      have hn : n + 1 + k = n + (k + 1) := by omega
      rw [course, List.getElem?_cons_succ, List.getElem?_cons_succ, ih, hn]
      rfl

end Modal

namespace Tally

@[simp] theorem size_moves_add (t : Tally α) (m : Move α) :
    (t.add m).moves.size = t.moves.size + 1 := Array.size_push m

@[simp] theorem toList_moves_add (t : Tally α) (m : Move α) :
    (t.add m).moves.toList = t.moves.toList ++ [m] := Array.toList_push

theorem toList_moves_foldl (t : Tally α) (moves : List (Move α)) :
    (moves.foldl add t).moves.toList = t.moves.toList ++ moves := by
  induction moves generalizing t with
  | nil => rw [List.foldl_nil, List.append_nil]
  | cons m moves ih =>
    rw [List.foldl_cons, ih, toList_moves_add, List.append_assoc, List.singleton_append]

end Tally

namespace Reader

/-- The reader after a motion: state and measures have changed, and nothing is noted. -/
def obey (r : Reader α) (m : Motion α) : Reader α :=
  r.take (r.modal.obey m) (some (r.modal.move m.fields m.command r.tally.moves.size))

/-- All that a line can do. The three cases exclude each other. -/
theorem step_cases (r : Reader α) (line : Line) :
    (∃ m, line.motion? = some m ∧ line.diagnostic? = none ∧ r.step line = r.obey m) ∨
    (∃ d, (line.motion? : Option (Motion α)) = none ∧ line.diagnostic? = some d ∧
      r.step line = { r with diagnostics := r.diagnostics.push d }) ∨
    ((line.motion? : Option (Motion α)) = none ∧ line.diagnostic? = none ∧ r.step line = r) := by
  unfold step Line.diagnostic?
  cases hcommand : line.isCommand with
  | false =>
    exact .inr (.inr ⟨Line.motion?_of_not_command hcommand, rfl, rfl⟩)
  | true =>
    obtain ⟨m, hf, hm, hs⟩ | ⟨m, hf, hm, hs⟩ | ⟨hf, hm, hs⟩ :=
      r.modal.interpretLine?_cases hcommand r.tally.moves.size
    · rw [hs, hf]
      exact .inr (.inl ⟨_, hm, rfl, rfl⟩)
    · rw [hs, hf]
      exact .inl ⟨m, hm, rfl, rfl⟩
    · rw [hs, hf]
      exact .inr (.inr ⟨hm, rfl, rfl⟩)

/-- A run leaves the state of its motions, the measures of their moves, and the faults in their
order. -/
theorem run_eq (r : Reader α) (lines : List Line) :
    r.run lines =
      { modal := r.modal.after (motions lines)
        tally := (r.modal.course r.tally.moves.size (motions lines)).foldl Tally.add r.tally
        diagnostics := r.diagnostics ++ (notes lines).toArray } := by
  induction lines generalizing r with
  | nil => simp [run, motions, notes, Modal.after, Modal.course]
  | cons line lines ih =>
    have hrun : r.run (line :: lines) = (r.step line).run lines := rfl
    rw [hrun]
    obtain ⟨m, hm, hd, hs⟩ | ⟨d, hm, hd, hs⟩ | ⟨hm, hd, hs⟩ := r.step_cases line
    · rw [hs, ih, motions_cons_of_some hm, notes_cons_of_none hd]
      simp [obey, take, Modal.after, Modal.course]
    · rw [hs, ih, motions_cons_of_none hm, notes_cons_of_some hd]
      simp
    · rw [hs, ih, motions_cons_of_none hm, notes_cons_of_none hd]

end Reader

namespace Program

@[simp] theorem moves_ofMoves (moves : List (Move α)) (ds : List Diagnostic) :
    (ofMoves moves ds).moves = moves := by
  change (Tally.ofMoves moves).moves.toList = moves
  rw [Tally.ofMoves, Tally.toList_moves_foldl]
  rfl

/-- What is noted of a path is no part of its measures. -/
theorem ofMoves_with_diagnostics (moves : List (Move α)) (ds es : List Diagnostic) :
    { ofMoves moves ds with diagnostics := es } = ofMoves moves es := rfl

/-- The measures of a program are those of its path, taken afresh. -/
theorem parse_eq (text : String) :
    (parse text : Program α) =
      ofMoves (Modal.start.course 0 (motions (lines text))) (notes (lines text)) := by
  rw [parse, Reader.run_eq]
  unfold Reader.program ofMoves Tally.ofMoves
  simp [Reader.start, Tally.empty]

theorem moves_parse (text : String) :
    (parse text : Program α).moves = Modal.start.course 0 (motions (lines text)) := by
  rw [parse_eq, moves_ofMoves]

theorem diagnostics_parse (text : String) :
    (parse text : Program α).diagnostics = notes (lines text) :=
  congrArg diagnostics (parse_eq text)

/-- The path and the diagnostics make the whole program. -/
theorem ofMoves_parse (text : String) :
    ofMoves (parse text : Program α).moves (parse text : Program α).diagnostics = parse text := by
  rw [moves_parse, diagnostics_parse, ← parse_eq]

end Program

end Waterjet
