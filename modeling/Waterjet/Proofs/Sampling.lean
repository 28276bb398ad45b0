import Mathlib
import Waterjet.Host.Standard
import Waterjet.Path.Polyline
import Waterjet.Proofs.Reals

/-! The points of a replayed arc in exact arithmetic. They are spaced evenly over the sweep of the
arc, from the direction of its start, and the whole sweep leads to the direction of its end; how
many turns apart the two sides count that direction is of no matter to a point. -/
namespace Waterjet
open Scalar

/-- The points of an arc, once there is room for so many. -/
theorem PathStep.points?_of_allocate? {α : Type} [Scalar α] [Host] {m : Move α}
    (hcircle : m.circle?.isSome = true) {count : SampleCount}
    (h : Host.allocate? [count.val] = .ok ()) :
    (PathStep.move m).points? count.val = .ok (m.points count) := by
  have hlength : (PathStep.move m).pointCount count = count.val := if_pos hcircle
  rw [points?, sampleCount?_eq_ok_iff.mpr ⟨rfl, by rwa [hlength]⟩]
  rfl

section Exact

variable [Reading] (count : SampleCount)

/-- The last parameter is one by itself, and is the fraction that it stands for. -/
theorem SampleCount.parameters_eq :
    (count.parameters : List ℝ) =
      (List.range count.val).map fun (k : ℕ) => (k : ℝ) / ((count.val : ℝ) - 1) := by
  obtain ⟨n, hn⟩ := Nat.exists_eq_add_of_le' count.two_le
  have hsteps : count.val - 1 = n + 1 := by omega
  have hlast : ((n + 1 : ℕ) : ℝ) = (count.val : ℝ) - 1 := by
    rw [hn]
    push_cast
    ring
  have hne : ((n + 1 : ℕ) : ℝ) ≠ 0 := Nat.cast_ne_zero.mpr n.succ_ne_zero
  have hfraction (k : ℕ) : (k : ℝ) * (((1 : ℕ) : ℝ) / ((n + 1 : ℕ) : ℝ)) = k / ((n + 1 : ℕ) : ℝ) := by
    rw [Nat.cast_one, mul_one_div]
  have hone : ((1 : ℕ) : ℝ) = ((n + 1 : ℕ) : ℝ) / ((n + 1 : ℕ) : ℝ) := by
    rw [div_self hne, Nat.cast_one]
  rw [← hlast, show count.val = n + 1 + 1 from hn, List.range_succ, List.map_append, parameters,
    hsteps]
  exact congrArg₂ (· ++ ·) (List.map_congr_left fun k _ => hfraction k)
    (congrArg (fun t => [t]) hone)

namespace Arc

variable (arc : Arc ℝ) (start : Point ℝ)

/-- The direction of a sample, counted from that of the start. -/
theorem sample_eq :
    arc.sample start count = (List.range count.val).map fun (k : ℕ) =>
      arc.pointAt (arc.center.angleFrom start + k / ((count.val : ℝ) - 1) * arc.signedAngle) := by
  rw [sample, SampleCount.parameters_eq, List.map_map]
  rfl

theorem head?_sample :
    (arc.sample start count).head? = some (arc.pointAt (arc.center.angleFrom start)) := by
  have hpos : 0 < count.val := by
    have := count.two_le
    omega
  rw [sample_eq, List.head?_map, List.head?_range, if_neg hpos.ne', Option.map_some, Nat.cast_zero,
    zero_div, zero_mul, add_zero]

theorem getLast?_sample :
    (arc.sample start count).getLast? =
      some (arc.pointAt (arc.center.angleFrom start + arc.signedAngle)) := by
  have hlast : ((count.val - 1 : ℕ) : ℝ) = (count.val : ℝ) - 1 := by
    rw [Nat.cast_sub (by have := count.two_le; omega), Nat.cast_one]
  have hne : (count.val : ℝ) - 1 ≠ 0 := by
    have hone : (1 : ℝ) < count.val := Nat.one_lt_cast.mpr count.two_le
    linarith
  rw [sample_eq, List.getLast?_map, List.getLast?_range, if_neg (by have := count.two_le; omega),
    Option.map_some, hlast, div_self hne, one_mul]

/-- The samples of an arc between two points end in the direction of the second. -/
theorem getLast?_sample_between (finish : Point ℝ) (i j : ℝ) (clockwise : Bool) :
    let arc := between start finish i j clockwise
    (arc.sample start count).getLast? = some (arc.pointAt (arc.center.angleFrom finish)) := by
  intro arc
  rw [getLast?_sample, signedAngle_between]
  exact congrArg some (pointAt_add_sweep arc clockwise _ _)

/-- They go round from the direction of the first, upward or downward. -/
theorem sample_between_eq (finish : Point ℝ) (i j : ℝ) (clockwise : Bool) :
    let arc := between start finish i j clockwise
    let first := arc.center.angleFrom start
    arc.sample start count = (List.range count.val).map fun (k : ℕ) => arc.pointAt
      (if clockwise then first - arc.angle * k / ((count.val : ℝ) - 1)
        else first + arc.angle * k / ((count.val : ℝ) - 1)) := by
  intro arc first
  rw [sample_eq]
  apply List.map_congr_left
  intro k _
  congr 1
  cases clockwise with
  | true =>
    change first + k / ((count.val : ℝ) - 1) * -arc.angle = _
    rw [if_pos rfl]
    ring
  | false =>
    change first + k / ((count.val : ℝ) - 1) * arc.angle = _
    rw [if_neg Bool.false_ne_true]
    ring

theorem head?_sample_between (finish : Point ℝ) (i j : ℝ) (clockwise : Bool) :
    ((between start finish i j clockwise).sample start count).head? = some start.xy := by
  rw [head?_sample]
  exact congrArg some ((pointAt_angleFrom_eq_iff _ _).mpr (distance_start_between ..))

end Arc

/-- The replay of an arc that is resolved from its own ends and direction, where there is room for
an array of so many points. It has as many as asked for. All of them lie on the circle, the first
is the start, and they divide the sweep evenly in the direction of the arc. The last lies in the
direction of the end, and is the end exactly if that is on the circle. -/
theorem Move.points_arc [Host] (hroom : Host.allocate? [count.val] = .ok ())
    (segment : Segment ℝ) (feed i j : ℝ) (clockwise : Bool) :
    let center : Point ℝ := ⟨segment.start.x + i, segment.start.y + j, none⟩
    let first := center.angleFrom segment.start
    ∃ arc, Arc.resolve? segment.start segment.finish (some i) (some j) clockwise = some arc ∧
      arc.center = center ∧
      let m : Move ℝ := { segment with drive := .arc feed clockwise (some arc) }
      let points := m.points count
      (PathStep.move m).points? count.val = .ok points ∧
      points.length = count.val ∧
      (∀ p ∈ points, center.distance ⟨p.1, p.2, none⟩ = arc.radius) ∧
      points.head? = some m.start.xy ∧
      points = (List.range count.val).map (fun (k : ℕ) => arc.pointAt
        (if clockwise then first - arc.angle * k / (count.val - 1)
          else first + arc.angle * k / (count.val - 1))) ∧
      points.getLast? = some (arc.pointAt (center.angleFrom m.finish)) ∧
      (points.getLast? = some m.finish.xy ↔ center.distance m.finish = arc.radius) := by
  intro center first
  let arc := Arc.between segment.start segment.finish i j clockwise
  refine ⟨arc, rfl, rfl, ?_⟩
  intro m points
  have hpoints := Arc.sample_between_eq count segment.start segment.finish i j clockwise
  have hlast : points.getLast? = some (arc.pointAt (center.angleFrom m.finish)) :=
    Arc.getLast?_sample_between count m.start m.finish i j clockwise
  refine ⟨PathStep.points?_of_allocate? rfl hroom, ?_, ?_, ?_, hpoints, hlast, ?_⟩
  · exact m.length_points count
  · intro p hp
    have hp : p ∈ arc.sample m.start count := hp
    rw [hpoints] at hp
    obtain ⟨k, -, rfl⟩ := List.mem_map.mp hp
    have hradius : 0 ≤ arc.radius := Arc.radius_between_nonneg ..
    exact Arc.distance_of_pointAt_eq hradius rfl
  · exact Arc.head?_sample_between count m.start m.finish i j clockwise
  · rw [hlast, Option.some.injEq]
    exact arc.pointAt_angleFrom_eq_iff m.finish

end Exact

/-- A quarter of the circle about the origin, upward, at three points. -/
theorem Move.points_arc_quarter :
    letI : Reading := ⟨Number.Decimal.toReal⟩
    letI : Host := .standard
    let count : SampleCount := ⟨3, by decide⟩
    let segment : Segment ℝ := ⟨⟨1, 0, none⟩, ⟨0, 1, none⟩, 0, true⟩
    Host.allocate? [count.val] = .ok () ∧
      ∃ arc points,
        Arc.resolve? segment.start segment.finish (some (-1)) (some 0) false = some arc ∧
        (PathStep.move { segment with drive := .arc 10 false (some arc) }).points? 3 = .ok points ∧
        points.length = 3 ∧ points.head? = some (1, 0) ∧ points.getLast? = some (0, 1) := by
  let inst : Reading := ⟨Number.Decimal.toReal⟩
  let host : Host := .standard
  intro count segment
  have hroom : Host.allocate? [count.val] = .ok () :=
    Host.allocate?_standard (List.forall_mem_singleton.mpr (by decide))
  obtain ⟨arc, harc, -, hpoints, hlength, -, hhead, -, -, hlast⟩ :=
    points_arc count hroom segment 10 (-1) 0 false
  refine ⟨hroom, arc, _, harc, hpoints, hlength, hhead, hlast.mpr ?_⟩
  cases harc
  change Real.sqrt ((0 - (1 + -1)) * (0 - (1 + -1)) + (1 - (0 + 0)) * (1 - (0 + 0))) =
    Real.sqrt (-1 * -1 + 0 * 0)
  congr 1
  ring

end Waterjet
