import Waterjet.Path.Move
import Waterjet.Path.Samples

/-!
Replay polylines. An arc with a circle is sampled at evenly spaced directions, every other move is
its chord, and a connected polyline leaves out the first point of each move after the first.
-/
namespace Waterjet

open Scalar

variable {α : Type} [Scalar α]

/-- Evenly spaced parameters from zero to one; the last is exactly one. -/
def SampleCount.parameters (count : SampleCount) : List α :=
  let step : α := (1 : Nat) / ((count.val - 1 : Nat) : α)
  (List.range (count.val - 1)).map (fun (k : Nat) => (k : α) * step) ++ [((1 : Nat) : α)]

/-- The points of a circle from the start's direction through the signed angle. -/
def Arc.sample (arc : Arc α) (start : Point α) (count : SampleCount) : List (α × α) :=
  let first := arc.center.angleFrom start
  count.parameters.map fun t => arc.pointAt (first + t * arc.signedAngle)

def Segment.ends (s : Segment α) : List (α × α) := [s.start.xy, s.finish.xy]

def Move.points (m : Move α) (count : SampleCount) : List (α × α) :=
  match m.circle? with
  | some arc => arc.sample m.start count
  | none => m.ends

def PathStep.points (step : PathStep α) (count : SampleCount) : List (α × α) :=
  match step with
  | .bare segment => segment.ends
  | .move m => m.points count

/-- The directions of both ends of an arc as seen from its center. -/
def Move.endAngles? (m : Move α) : Except ReplayFault (α × α) :=
  match m.circle? with
  | some arc => .ok (arc.center.angleFrom m.start, arc.center.angleFrom m.finish)
  | none => .error (.noCircle m.sequence)

/-- Lists of points in a row. -/
def joinPoints (connect : Bool) : List (List (α × α)) → List (α × α)
  | [] => []
  | first :: rest => first ++ rest.flatMap fun points => if connect then points.drop 1 else points

def polyline (moves : List (Move α)) (count : SampleCount) (connect : Bool) : List (α × α) :=
  joinPoints connect (moves.map (·.points count))

def Move.pointCount (m : Move α) (count : SampleCount) : Nat :=
  if m.circle?.isSome then count.val else 2

/-- The number of points of a polyline, without the points themselves. -/
def polylineLength (count : SampleCount) (connect : Bool) : List (Move α) → Nat
  | [] => 0
  | first :: rest =>
    rest.foldl
      (fun (n : Nat) m => n + if connect then m.pointCount count - 1 else m.pointCount count)
      (first.pointCount count)

theorem Move.length_points (m : Move α) (count : SampleCount) :
    (m.points count).length = m.pointCount count := by
  have := count.two_le
  unfold Move.points Move.pointCount
  cases m.circle? with
  | none => rfl
  | some arc =>
    simp only [Arc.sample, SampleCount.parameters, List.length_map, List.length_append,
      List.length_range, List.length_singleton, Option.isSome_some, if_true]
    omega

theorem foldl_pointCount (rest : List (Move α)) (count : SampleCount) (connect : Bool) (n : Nat) :
    rest.foldl
        (fun (n : Nat) m => n + if connect then m.pointCount count - 1 else m.pointCount count) n =
      n + (rest.flatMap fun m =>
        if connect then (m.points count).drop 1 else m.points count).length := by
  induction rest generalizing n with
  | nil => rfl
  | cons m rest ih =>
    rw [List.foldl_cons, ih, List.flatMap_cons, List.length_append, ← Nat.add_assoc]
    cases connect with
    | false => rw [if_neg Bool.false_ne_true, if_neg Bool.false_ne_true, Move.length_points]
    | true => rw [if_pos rfl, if_pos rfl, List.length_drop, Move.length_points]

theorem length_polyline (moves : List (Move α)) (count : SampleCount) (connect : Bool) :
    (polyline moves count connect).length = polylineLength count connect moves := by
  cases moves with
  | nil => rfl
  | cons first rest =>
    simp only [polyline, joinPoints, polylineLength, List.map_cons, List.flatMap_map,
      List.length_append, Move.length_points, foldl_pointCount]

def PathStep.pointCount (step : PathStep α) (count : SampleCount) : Nat :=
  match step with
  | .bare _ => 2
  | .move m => m.pointCount count

/-- The lengths of the arrays of a replay: one for each move, and then the row of them all. -/
def arrayLengths (moves : List (Move α)) (connect : Bool) (count : SampleCount) : List Nat :=
  moves.map (·.pointCount count) ++ [polylineLength count connect moves]

section Room

variable [Host]

/-- There is room for the replay of some moves. -/
def HasRoom (moves : List (Move α)) (count : SampleCount) (connect : Bool) : Prop :=
  Host.allocate? (arrayLengths moves connect count) = .ok ()

def PathStep.points? (step : PathStep α) (samples : Int) :
    Except ReplayFault (List (α × α)) :=
  (sampleCount? samples fun count => [step.pointCount count]).map step.points

/-- The polyline for any number of samples asked for; a path without moves needs none. -/
def polyline? (moves : List (Move α)) (samples : Int) (connect : Bool) :
    Except ReplayFault (List (α × α)) :=
  if moves.isEmpty then .ok []
  else (sampleCount? samples (arrayLengths moves connect)).map fun count =>
    polyline moves count connect

/-- The number of points of the connected polyline. -/
def replayLength? (moves : List (Move α)) (samples : Int) : Except ReplayFault Nat :=
  if moves.isEmpty then .ok 0
  else (sampleCount? samples (arrayLengths moves true)).map fun count =>
    polylineLength count true moves

end Room

end Waterjet
