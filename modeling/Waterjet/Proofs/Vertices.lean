import Waterjet.Host.Standard
import Waterjet.Proofs.Replay

/-! The points of a replay, counted and named. A replay is the points of its moves in a row, and a
connected one leaves out the first point of each move after the first. Where no move has a circle
its points are the places that the head goes to, from the origin on. -/
namespace Waterjet
open Scalar Nc

section Join

variable {β : Type} {lists : List (List (β × β))}

theorem joinPoints_separate (lists : List (List (β × β))) :
    joinPoints false lists = lists.flatten := by
  cases lists with
  | nil => rfl
  | cons first rest => exact congrArg (first ++ ·) List.flatMap_id

theorem joinPoints_connected (lists : List (List (β × β))) :
    joinPoints true lists = lists.head?.getD [] ++ (lists.tail.map (·.drop 1)).flatten := by
  cases lists <;> rfl

theorem length_flatten_drop (h : ∀ points ∈ lists, 2 ≤ points.length) :
    (lists.map (·.drop 1)).flatten.length + lists.length = (lists.map List.length).sum := by
  induction lists with
  | nil => rfl
  | cons points lists ih =>
    have hpoints : 2 ≤ points.length := h points List.mem_cons_self
    have hlists := ih fun q hq => h q (List.mem_cons_of_mem _ hq)
    rw [List.map_cons, List.flatten_cons, List.length_append, List.length_drop, List.length_cons,
      List.map_cons, List.sum_cons]
    omega

/-- One point is left out of each list but the first. -/
theorem length_joinPoints_connected (h : ∀ points ∈ lists, 2 ≤ points.length) :
    (joinPoints true lists).length + (lists.length - 1) = (lists.map List.length).sum := by
  rw [joinPoints_connected]
  cases lists with
  | nil => rfl
  | cons first rest =>
    have hrest := length_flatten_drop fun points hp => h points (List.mem_cons_of_mem _ hp)
    rw [List.head?_cons, Option.getD_some, List.tail_cons, List.length_append, List.length_cons,
      Nat.add_sub_cancel, Nat.add_assoc, hrest, List.map_cons, List.sum_cons]

end Join

variable {α : Type} [Scalar α] (count : SampleCount)

/-- Every number of samples has a replay where there is room for it. -/
theorem polyline?_of_hasRoom [Host] {moves : List (Move α)} {connect : Bool}
    (h : HasRoom moves count connect) :
    polyline? moves count.val connect = .ok (polyline moves count connect) := by
  unfold polyline?
  rw [sampleCount?_eq_ok_iff.mpr ⟨rfl, h⟩]
  cases moves <;> rfl

theorem Move.points_of_circle_none {m : Move α} (h : m.circle? = none) :
    m.points count = [m.start.xy, m.finish.xy] := by
  rw [points, h]
  rfl

/-- Without circles a connected replay begins where the first move does and goes on to the end of
each. -/
theorem polyline_straight {moves : List (Move α)} (h : ∀ m ∈ moves, m.circle? = none) :
    polyline moves count true =
      (moves.head?.map (·.start.xy)).toList ++ moves.map (·.finish.xy) := by
  rw [polyline, joinPoints_connected]
  cases moves with
  | nil => rfl
  | cons first rest =>
    have hfirst := Move.points_of_circle_none count (h first List.mem_cons_self)
    have hrest : (rest.map (·.points count)).map (·.drop 1) = rest.map fun m => [m.finish.xy] := by
      rw [List.map_map]
      apply List.map_congr_left
      intro m hm
      rw [Function.comp_apply, Move.points_of_circle_none count (h m (List.mem_cons_of_mem _ hm))]
      rfl
    rw [List.map_cons, List.head?_cons, Option.getD_some, List.tail_cons, hrest, hfirst,
      ← List.flatMap_def, ← List.map_eq_flatMap]
    rfl

/-- The replay of any moves at any number of samples, where there is room for it: how many points it
has, and which. A program whose arcs have no circle is replayed from the origin to the ends of its
moves one by one, and each point left out is the one just given; a program without moves has no
points at all. -/
theorem Program.polyline_vertices (α : Type) [Scalar α] [Host] (count : SampleCount) :
    (∀ moves : List (Move α),
      let lists := moves.map (·.points count)
      let total := (moves.map fun m => if m.circle?.isSome then count.val else 2).sum
      (∀ connect, HasRoom moves count connect →
        polyline? moves count.val connect = .ok (polyline moves count connect)) ∧
      polyline moves count false = lists.flatten ∧
      (polyline moves count false).length = total ∧
      polyline moves count true = lists.head?.getD [] ++ (lists.tail.map (·.drop 1)).flatten ∧
      (polyline moves count true).length + (moves.length - 1) = total) ∧
    ∀ text : String,
      let moves := (parse text : Program α).moves
      (∀ m ∈ moves, m.circle? = none) →
        (moves = [] → polyline moves count true = []) ∧
        (moves ≠ [] → polyline moves count true = Point.origin.xy :: moves.map (·.finish.xy)) ∧
        moves.IsChain fun a b => (b.points count).head? = (a.points count).getLast? := by
  constructor
  · intro moves lists total
    have hlengths : lists.map List.length = moves.map (·.pointCount count) := by
      rw [List.map_map]
      exact List.map_congr_left fun m _ => m.length_points count
    have htotal : (lists.map List.length).sum = total := congrArg List.sum hlengths
    have hlong : ∀ points ∈ lists, 2 ≤ points.length :=
      List.forall_mem_map.mpr fun m _ => m.two_le_length_points count
    refine ⟨fun _ => polyline?_of_hasRoom count, joinPoints_separate lists, ?_,
      joinPoints_connected lists, ?_⟩
    · rw [polyline, joinPoints_separate, List.length_flatten, htotal]
    · have hlength := length_joinPoints_connected hlong
      rwa [htotal, List.length_map] at hlength
  · intro text moves hstraight
    have hchained : Chained moves _ := Reader.chained_run Reader.start (lines text) .nil
    refine ⟨fun h => by rw [h]; rfl, ?_, ?_⟩
    · intro hne
      obtain ⟨first, rest, hmoves⟩ := List.exists_cons_of_ne_nil hne
      have hstart : first.start = Point.origin := hchained.first first (by rw [hmoves]; rfl)
      rw [polyline_straight count hstraight]
      rw [hmoves, List.head?_cons, Option.map_some, hstart]
      rfl
    · apply hchained.linked.imp_of_mem_imp
      intro a b ha hb hlinked
      rw [Move.points_of_circle_none count (hstraight a ha),
        Move.points_of_circle_none count (hstraight b hb), hlinked]
      rfl

/-- A straight cut and an arc with a circle, at three points. -/
theorem Program.polyline_vertices_of_arc :
    letI : Host := .standard
    let count : SampleCount := ⟨3, by decide⟩
    let moves := (parse "G01 X1 F10\nG02 X3 I1 J0\n" : Program Float).moves
    HasRoom moves count true ∧ polyline? moves 3 true = .ok (polyline moves count true) ∧
      (polyline moves count true).length = 4 := by
  let host : Host := .standard
  intro count moves
  have hroom : HasRoom moves count true := Host.allocate?_standard (by decide +kernel)
  obtain ⟨hreplay, -, -, -, hlength⟩ := (polyline_vertices Float count).1 moves
  have hmoves : moves.length = 2 := by decide +kernel
  have htotal : (moves.map fun m => if m.circle?.isSome then count.val else 2).sum = 5 := by
    decide +kernel
  rw [hmoves, htotal] at hlength
  exact ⟨hroom, hreplay true hroom, by omega⟩

/-- A program that ends without a move has no arc either, and its replay has no origin. -/
theorem Program.polyline_without_moves :
    letI : Host := .standard
    let p : Program Float := parse "M30\n"
    (∀ m ∈ p.moves, m.circle? = none) ∧
      polyline p.moves ⟨2, le_rfl⟩ true ≠ Point.origin.xy :: p.moves.map (·.finish.xy) := by
  let host : Host := .standard
  intro p
  have hmoves : p.moves = [] := by
    apply List.isEmpty_iff.mp
    decide +kernel
  rw [hmoves]
  exact ⟨nofun, nofun⟩

end Waterjet
