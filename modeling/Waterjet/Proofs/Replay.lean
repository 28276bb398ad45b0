import Waterjet.Proofs.Chain
import Waterjet.Proofs.Retention
import Waterjet.Proofs.Sampling

/-! Connected replays. The first point of a move is left out of them because the move before it is
thought to have given it already. It has, if that move is straight or its end lies on its circle;
an arc whose end lies elsewhere stops short of it, and that point is lost. -/
namespace Waterjet
open Scalar Nc Number

/-- The circle of a move is the one that some offsets from its start give. -/
def Move.IsResolved {α : Type} [Scalar α] (m : Move α) : Prop :=
  ∀ arc, m.circle? = some arc →
    ∃ i j clockwise, arc = Arc.between m.start m.finish i j clockwise

/-- The end of a move lies on its circle, if it has one. -/
def Move.EndsOnCircle {α : Type} [Scalar α] (m : Move α) : Prop :=
  ∀ arc, m.circle? = some arc → arc.center.distance m.finish = arc.radius

section Join

variable {α : Type} {lists : List (List (α × α))} {points : List (α × α)} {p : α × α}

/-- Only first points are ever left out. -/
theorem mem_joinPoints_of_mem_drop (hpoints : points ∈ lists) (hp : p ∈ points.drop 1) :
    p ∈ joinPoints true lists := by
  cases lists with
  | nil => cases hpoints
  | cons first rest =>
    rcases List.mem_cons.mp hpoints with rfl | hrest
    · exact List.mem_append_left _ (List.mem_of_mem_drop hp)
    · exact List.mem_append_right _ (List.mem_flatMap.mpr ⟨points, hrest, hp⟩)

theorem mem_drop_of_getLast? (hlong : 2 ≤ points.length) (hp : points.getLast? = some p) :
    p ∈ points.drop 1 := by
  apply List.mem_of_getLast?
  rw [List.getLast?_drop, if_neg (by omega), hp]

/-- Where every list begins with the last point of the one before, and none is a single point,
leaving out first points loses none of them. -/
theorem mem_joinPoints (hlinked : lists.IsChain fun a b => b.head? = a.getLast?)
    (hlong : ∀ points ∈ lists, 2 ≤ points.length) (hpoints : points ∈ lists) (hp : p ∈ points) :
    p ∈ joinPoints true lists := by
  obtain ⟨k, hk, rfl⟩ := List.getElem_of_mem hpoints
  cases k with
  | zero =>
    obtain ⟨first, rest, rfl⟩ := List.exists_cons_of_length_pos hk
    exact List.mem_append_left _ hp
  | succ k =>
    have hhead : lists[k + 1].head? = lists[k].getLast? :=
      List.isChain_iff_getElem.mp hlinked k hk
    have hprevious : lists[k] ∈ lists := List.getElem_mem _
    cases hnext : lists[k + 1] with
    | nil =>
      rw [hnext] at hp
      cases hp
    | cons q rest =>
      rw [hnext] at hp hhead
      rcases List.mem_cons.mp hp with rfl | hrest
      -- A first point that is left out was given as the last one before, which was not first.
      · have hlast := mem_drop_of_getLast? (hlong _ hprevious) hhead.symm
        exact mem_joinPoints_of_mem_drop hprevious hlast
      · have hdrop : p ∈ lists[k + 1].drop 1 := by rwa [hnext]
        exact mem_joinPoints_of_mem_drop hpoints hdrop

end Join

section Resolved

variable {α : Type} [Scalar α]

theorem Modal.isResolved_move (s : Modal α) (fields : Fields α) (command : Command) (n : Int) :
    (s.move fields command n).IsResolved := by
  intro arc harc
  have hresolve (clockwise : Bool)
      (h : Arc.resolve? s.position (s.target fields) fields.i fields.j clockwise = some arc) :
      ∃ i j clockwise, arc = Arc.between s.position (s.target fields) i j clockwise := by
    obtain ⟨i, -, h⟩ := Option.bind_eq_some_iff.mp h
    obtain ⟨j, -, h⟩ := Option.bind_eq_some_iff.mp h
    exact ⟨i, j, clockwise, (Option.some.inj h).symm⟩
  cases command with
  | rapid => cases harc
  | linear => cases harc
  | clockwiseArc => exact hresolve true harc
  | counterclockwiseArc => exact hresolve false harc

theorem Modal.isResolved_course (s : Modal α) (n : Nat) (ms : List (Motion α)) :
    ∀ m ∈ s.course n ms, m.IsResolved := by
  induction ms generalizing s n with
  | nil => nofun
  | cons m ms ih =>
    intro move hmove
    rcases List.mem_cons.mp hmove with rfl | hmove
    · exact s.isResolved_move m.fields m.command n
    · exact ih (s.obey m) (n + 1) move hmove

theorem Program.isResolved_parse (text : String) :
    ∀ m ∈ (parse text : Program α).moves, m.IsResolved := by
  rw [moves_parse]
  exact Modal.isResolved_course .start 0 _

theorem Move.two_le_length_points (m : Move α) (count : SampleCount) :
    2 ≤ (m.points count).length := by
  rw [length_points]
  unfold pointCount
  split
  · exact count.two_le
  · exact le_rfl

end Resolved

section Reals

variable [Reading]

namespace Move

/-- A sampled arc begins in the direction of its start. -/
theorem head?_points {m : Move ℝ} (h : m.IsResolved) (count : SampleCount) :
    (m.points count).head? = some m.start.xy := by
  unfold points
  cases hcircle : m.circle? with
  | none => rfl
  | some arc =>
    obtain ⟨i, j, clockwise, rfl⟩ := h arc hcircle
    exact Arc.head?_sample_between count m.start m.finish i j clockwise

/-- It ends in the direction of its end, which is at its end only on the circle. -/
theorem getLast?_points {m : Move ℝ} (h : m.IsResolved) (count : SampleCount) :
    (m.points count).getLast? = some m.finish.xy ↔ m.EndsOnCircle := by
  unfold points EndsOnCircle
  cases hcircle : m.circle? with
  | none => exact iff_of_true rfl nofun
  | some arc =>
    have hlast : (arc.sample m.start count).getLast? =
        some (arc.pointAt (arc.center.angleFrom m.finish)) := by
      obtain ⟨i, j, clockwise, rfl⟩ := h arc hcircle
      exact Arc.getLast?_sample_between count m.start m.finish i j clockwise
    change (arc.sample m.start count).getLast? = _ ↔ _
    rw [hlast, Option.some.injEq, Arc.pointAt_angleFrom_eq_iff]
    exact ⟨fun h _ heq => Option.some.inj heq ▸ h, fun h => h arc rfl⟩

end Move

/-- An arc that ends off its circle never comes by its end. -/
theorem Move.finish_mem_points_iff {m : Move ℝ} (h : m.IsResolved) (count : SampleCount) :
    m.finish.xy ∈ m.points count ↔ m.EndsOnCircle := by
  constructor
  · intro hmem arc hcircle
    have hsample : m.points count = arc.sample m.start count := by rw [points, hcircle]
    have hradius : 0 ≤ arc.radius := by
      obtain ⟨i, j, clockwise, rfl⟩ := h arc hcircle
      exact Arc.radius_between_nonneg ..
    rw [hsample, Arc.sample, List.mem_map] at hmem
    obtain ⟨t, -, ht⟩ := hmem
    exact Arc.distance_of_pointAt_eq hradius ht
  · intro hends
    exact List.mem_of_getLast? ((getLast?_points h count).mpr hends)

/-- Where a move begins that another leads to, the replay of the other ends if it ends on its
circle. -/
theorem Move.head?_points_eq_iff {previous next : Move ℝ} (hprevious : previous.IsResolved)
    (hnext : next.IsResolved) (hlinked : next.start = previous.finish) (count : SampleCount) :
    (next.points count).head? = (previous.points count).getLast? ↔ previous.EndsOnCircle := by
  rw [head?_points hnext count, hlinked, eq_comm]
  exact getLast?_points hprevious count

namespace Program

/-- A connected replay of a whole program, in exact arithmetic. Every move is replayed from its
start, and to its end, or by it at all, exactly if that is not off its circle; so the point left out
at the next move is the one just given exactly in that case, and where no move ends off its circle
every end of every move is on the replay. -/
theorem polyline_connected (text : String) (count : SampleCount) :
    let moves := (parse text : Program ℝ).moves
    (∀ m ∈ moves, (m.points count).head? = some m.start.xy ∧
      ((m.points count).getLast? = some m.finish.xy ↔ m.EndsOnCircle) ∧
      (m.finish.xy ∈ m.points count ↔ m.EndsOnCircle)) ∧
    (∀ (k : Nat) (previous next : Move ℝ), moves[k]? = some previous → moves[k + 1]? = some next →
      ((next.points count).head? = (previous.points count).getLast? ↔ previous.EndsOnCircle)) ∧
    ((∀ m ∈ moves, m.EndsOnCircle) → ∀ m ∈ moves,
      m.start.xy ∈ polyline moves count true ∧ m.finish.xy ∈ polyline moves count true) := by
  intro moves
  have hresolved : ∀ m ∈ moves, m.IsResolved := isResolved_parse text
  have hchained : Chained moves _ := Reader.chained_run Reader.start (lines text) .nil
  refine ⟨?_, ?_, ?_⟩
  · intro m hm
    exact ⟨Move.head?_points (hresolved m hm) count, Move.getLast?_points (hresolved m hm) count,
      Move.finish_mem_points_iff (hresolved m hm) count⟩
  · intro k previous next hprevious hnext
    have hlinked : next.start = previous.finish := by
      obtain ⟨hk, rfl⟩ := List.getElem?_eq_some_iff.mp hnext
      obtain ⟨_, rfl⟩ := List.getElem?_eq_some_iff.mp hprevious
      exact List.isChain_iff_getElem.mp hchained.linked k hk
    have hprevious := hresolved previous (List.mem_of_getElem? hprevious)
    have hnext := hresolved next (List.mem_of_getElem? hnext)
    exact Move.head?_points_eq_iff hprevious hnext hlinked count
  · intro hends m hm
    have hpoints : m.points count ∈ moves.map (·.points count) := List.mem_map_of_mem hm
    have hchain : (moves.map (·.points count)).IsChain fun a b => b.head? = a.getLast? := by
      rw [List.isChain_map]
      apply hchained.linked.imp_of_mem_imp
      intro previous next hprevious hnext hlinked
      exact (Move.head?_points_eq_iff (hresolved previous hprevious) (hresolved next hnext)
        hlinked count).mpr (hends previous hprevious)
    have hlong : ∀ points ∈ moves.map (·.points count), 2 ≤ points.length :=
      List.forall_mem_map.mpr fun m _ => m.two_le_length_points count
    constructor
    · apply mem_joinPoints hchain hlong hpoints
      exact List.mem_of_head? (Move.head?_points (hresolved m hm) count)
    · apply mem_joinPoints hchain hlong hpoints
      exact List.mem_of_getLast? ((Move.getLast?_points (hresolved m hm) count).mpr (hends m hm))

end Program

end Reals

theorem Command.ofNumber?_number [Reading] (command : Command) :
    ofNumber? ((command.number : ℕ) : ℝ) = some command := by
  have hbeq (m n : ℕ) : Scalar.toBEq.beq (m : ℝ) (n : ℝ) = decide (m = n) := by
    change decide ((m : ℝ) = n) = decide (m = n)
    rw [decide_eq_decide, Nat.cast_inj]
  unfold ofNumber?
  change (if Scalar.toBEq.beq ((command.number : ℕ) : ℝ) ((0 : ℕ) : ℝ) = true then _ else
    if Scalar.toBEq.beq ((command.number : ℕ) : ℝ) ((1 : ℕ) : ℝ) = true then _ else
    if Scalar.toBEq.beq ((command.number : ℕ) : ℝ) ((2 : ℕ) : ℝ) = true then _ else
    if Scalar.toBEq.beq ((command.number : ℕ) : ℝ) ((3 : ℕ) : ℝ) = true then _ else _) = _
  rw [hbeq, hbeq, hbeq, hbeq]
  cases command <;> rfl

theorem Nc.Line.motion?_of_fields [Reading] {line : Line} {fields : Fields ℝ} {command : Command}
    (hcommand : line.isCommand = true) (hfault : line.fault? = none)
    (hfields : line.fields = fields) (hg : fields.g = some ((command.number : ℕ) : ℝ)) :
    line.motion? = some ⟨fields, command⟩ := by
  rw [Line.motion?_of_command hcommand hfault, hfields, Fields.motion?, hg, Option.bind_some,
    Command.ofNumber?_number]
  rfl

/-- Half a circle about a center one millimetre from the start, given with an end ten millimetres
from it: the cut that follows begins there, and the replay does not come by it. -/
theorem Program.polyline_off_circle :
    letI : Reading := ⟨Decimal.toReal⟩
    let count : SampleCount := ⟨2, le_rfl⟩
    ∃ previous next : Move ℝ,
      (parse "G02 X10 Y0 I1 J0\nG01 X20\n" : Program ℝ).moves = [previous, next] ∧
      previous.finish.xy = (10, 0) ∧ next.start.xy = (10, 0) ∧
      (next.points count).head? ≠ (previous.points count).getLast? ∧
      (10, 0) ∉ polyline [previous, next] count true := by
  let inst : Reading := ⟨Decimal.toReal⟩
  intro count
  let arcLine : Line := ⟨1, "G02 X10 Y0 I1 J0", .command, ["G02", "X10", "Y0", "I1", "J0"]⟩
  let cutLine : Line := ⟨2, "G01 X20", .command, ["G01", "X20"]⟩
  let arcFields : Fields ℝ :=
    ⟨some (2 : ℕ), some (10 : ℕ), some (0 : ℕ), none, none, some (1 : ℕ), some (0 : ℕ)⟩
  let cutFields : Fields ℝ := ⟨some (1 : ℕ), some (20 : ℕ), none, none, none, none, none⟩
  have hlines : lines "G02 X10 Y0 I1 J0\nG01 X20\n" = [arcLine, cutLine] := by decide +kernel
  have hread (n : ℕ) : (ofDecimal ⟨false, n, 0⟩ : ℝ) = n := by
    change Decimal.toReal ⟨false, n, 0⟩ = n
    simp [Decimal.toReal]
  have harcFields : (arcLine.fields : Fields ℝ) = arcFields := by
    have htable : fieldLetters.map arcLine.number? = [some ⟨false, 2, 0⟩, some ⟨false, 10, 0⟩,
      some ⟨false, 0, 0⟩, none, none, some ⟨false, 1, 0⟩, some ⟨false, 0, 0⟩] := by decide +kernel
    rw [Line.fields_eq htable]
    simp only [Option.map_some, Option.map_none, hread]
    rfl
  have hcutFields : (cutLine.fields : Fields ℝ) = cutFields := by
    have htable : fieldLetters.map cutLine.number? = [some ⟨false, 1, 0⟩, some ⟨false, 20, 0⟩,
      none, none, none, none, none] := by decide +kernel
    rw [Line.fields_eq htable]
    simp only [Option.map_some, Option.map_none, hread]
    rfl
  have harcMotion : (arcLine.motion? : Option (Motion ℝ)) = some ⟨arcFields, .clockwiseArc⟩ :=
    Line.motion?_of_fields rfl (by decide +kernel) harcFields rfl
  have hcutMotion : (cutLine.motion? : Option (Motion ℝ)) = some ⟨cutFields, .linear⟩ :=
    Line.motion?_of_fields rfl (by decide +kernel) hcutFields rfl
  let previous : Move ℝ := Modal.start.move arcFields .clockwiseArc (0 : ℕ)
  let next : Move ℝ :=
    (Modal.start.advance arcFields Command.clockwiseArc.kind).move cutFields .linear (1 : ℕ)
  have hmoves : (parse "G02 X10 Y0 I1 J0\nG01 X20\n" : Program ℝ).moves = [previous, next] := by
    rw [moves_parse, hlines, motions_cons_of_some harcMotion, motions_cons_of_some hcutMotion]
    rfl
  have hfinish : previous.finish.xy = (10, 0) := by
    change (((10 : ℕ) : ℝ), ((0 : ℕ) : ℝ)) = (10, 0)
    rw [Nat.cast_ofNat, Nat.cast_zero]
  have hoff : ¬ previous.EndsOnCircle := by
    intro hends
    have hcircle := (Arc.distance_between_eq_iff _ _ _ _ _ _).mp (hends _ rfl)
    change ((10 : ℕ) - (((0 : ℕ) : ℝ) + (1 : ℕ))) ^ 2 + ((0 : ℕ) - (((0 : ℕ) : ℝ) + (0 : ℕ))) ^ 2 =
      ((1 : ℕ) : ℝ) ^ 2 + ((0 : ℕ) : ℝ) ^ 2 at hcircle
    norm_num at hcircle
  have hprevious : previous.IsResolved := Modal.isResolved_move _ _ _ _
  have hnext : next.IsResolved := Modal.isResolved_move _ _ _ _
  refine ⟨previous, next, hmoves, hfinish, hfinish, ?_, ?_⟩
  · exact mt (Move.head?_points_eq_iff hprevious hnext rfl count).mp hoff
  · intro hmem
    rcases List.mem_append.mp hmem with hmem | hmem
    · rw [← hfinish, Move.finish_mem_points_iff hprevious] at hmem
      exact hoff hmem
    · have hmem : ((10, 0) : ℝ × ℝ) ∈ [next.finish.xy] := hmem
      have hx : (10 : ℝ) = ((20 : ℕ) : ℝ) := congrArg Prod.fst (List.mem_singleton.mp hmem)
      norm_num at hx

end Waterjet
