import Mathlib.Data.List.Chain
import Waterjet.Proofs.Course

/-! Gap-free paths. The state of a reader and the moves it has made are kept apart; that they agree
is an invariant of every line, and from it each move begins where the one before it ended. -/
namespace Waterjet
open Scalar Nc

variable {α : Type} [Scalar α]

/-- Moves in a row, without a gap and numbered from zero, that end in the given state. -/
structure Chained (moves : List (Move α)) (s : Modal α) : Prop where
  numbered : moves.map (·.sequence) = (List.range moves.length).map fun (k : Nat) => (k : Int)
  first : ∀ m, moves.head? = some m → m.start = Point.origin
  linked : moves.IsChain fun a b => b.start = a.finish
  heights : ∀ m ∈ moves, m.start.z.isSome = true ∧ m.finish.z.isSome = true
  position : s.position = (moves.getLast?.map (·.finish)).getD Point.origin
  lastKind : s.lastKind = (moves.getLast?.map Move.kind).getD .rapid
  feed : ∀ m, moves.getLast? = some m → m.isCutting = true → m.feed? = some s.feed

namespace Chained

theorem nil : Chained ([] : List (Move α)) Modal.start where
  numbered := rfl
  first := nofun
  linked := .nil
  heights := nofun
  position := rfl
  lastKind := rfl
  feed := nofun

theorem height {moves : List (Move α)} {s : Modal α} (h : Chained moves s) :
    s.position.z.isSome = true := by
  rw [h.position]
  cases hlast : moves.getLast? with
  | none => rfl
  | some m => exact (h.heights m (List.mem_of_getLast? hlast)).2

/-- One more move, made from the state that the others end in. -/
theorem concat {moves : List (Move α)} {s : Modal α} (h : Chained moves s) (m : Motion α) :
    Chained (moves ++ [s.move m.fields m.command moves.length]) (s.obey m) := by
  have hlast : (moves ++ [s.move m.fields m.command moves.length]).getLast? =
      some (s.move m.fields m.command moves.length) := List.getLast?_concat
  constructor
  · rw [List.map_append, h.numbered, List.length_append, List.length_singleton,
      List.range_succ, List.map_append]
    rfl
  · intro first hfirst
    cases moves with
    | nil =>
      cases Option.some.inj hfirst
      exact h.position
    | cons a rest => exact h.first first hfirst
  · apply h.linked.append (.singleton _)
    intro last hlast' next hnext
    cases Option.some.inj hnext
    change s.position = last.finish
    rw [h.position, hlast']
    rfl
  · intro move hmove
    rcases List.mem_append.mp hmove with hold | hnew
    · exact h.heights move hold
    · cases List.mem_singleton.mp hnew
      refine ⟨h.height, ?_⟩
      change (m.fields.z.or s.position.z).isSome = true
      rw [Option.isSome_or, h.height, Bool.or_true]
  · rw [hlast]
    rfl
  · rw [hlast, Option.map_some, Option.getD_some, Move.kind, Modal.command_move]
    rfl
  · intro last heq hcutting
    cases Option.some.inj (hlast.symm.trans heq)
    exact Modal.feed?_move s m.fields m.command _ hcutting

end Chained

namespace Reader

theorem chained_step (r : Reader α) (line : Line) (h : Chained r.program.moves r.modal) :
    Chained (r.step line).program.moves (r.step line).modal := by
  obtain ⟨m, -, -, hs⟩ | ⟨d, -, -, hs⟩ | ⟨-, -, hs⟩ := r.step_cases line
  · have hmoves : (r.obey m).program.moves =
        r.program.moves ++ [r.modal.move m.fields m.command r.program.moves.length] :=
      Tally.toList_moves_add ..
    rw [hs, hmoves]
    exact h.concat m
  · rw [hs]
    exact h
  · rw [hs]
    exact h

theorem chained_run (r : Reader α) (lines : List Line) (h : Chained r.program.moves r.modal) :
    Chained (r.run lines).program.moves (r.run lines).modal := by
  induction lines generalizing r with
  | nil => exact h
  | cons line lines ih => exact ih (r.step line) (r.chained_step line h)

/-- After any number of the lines of any text, whatever is wrong with them, the path is a chain and
the state is where it ends. -/
theorem chained_run_take (text : String) (n : Nat) :
    let r : Reader α := Reader.start.run ((lines text).take n)
    Chained r.program.moves r.modal :=
  chained_run Reader.start _ .nil

end Reader

end Waterjet
