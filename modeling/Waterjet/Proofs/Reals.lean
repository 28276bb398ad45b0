import Mathlib.Analysis.SpecialFunctions.Complex.Arg
import Waterjet.Path.Polyline

/-! Arcs in exact arithmetic. Over the reals a direction has one angle and the turns around it, so
an arc sweeps from the direction of its start exactly to that of its end. It begins where the move
begins, but it ends where the move ends only if that point lies on its circle. -/
namespace Waterjet
open Scalar Number

/-- A way to read numerals as reals, exactly or by numbers near to them. -/
class Reading where
  read : Decimal → ℝ

/-- The value of a numeral. -/
noncomputable def Number.Decimal.toReal (d : Decimal) : ℝ :=
  (if d.negative then -1 else 1) * d.coefficient * (10 : ℝ) ^ d.exponent

noncomputable section

/-- The reals with their own functions. -/
instance [Reading] : Scalar ℝ where
  natCast n := (n : ℝ)
  add x y := x + y
  sub x y := x - y
  mul x y := x * y
  div x y := x / y
  neg x := -x
  beq x y := decide (x = y)
  below x y := decide (x < y)
  abs x := |x|
  sqrt := Real.sqrt
  hypot x y := Real.sqrt (x * x + y * y)
  atan2 y x := Complex.arg ⟨x, y⟩
  cos := Real.cos
  sin := Real.sin
  pi := Real.pi
  floor? x := .ok ⌊x⌋
  ofDecimal := Reading.read

variable [Reading]

/-- A point as seen from a center, in the complex plane. -/
def Point.seenFrom (center p : Point ℝ) : ℂ := ⟨p.x - center.x, p.y - center.y⟩

namespace Point

variable (center p : Point ℝ)

theorem angleFrom_eq : center.angleFrom p = (center.seenFrom p).arg := rfl

theorem distance_eq : center.distance p = ‖center.seenFrom p‖ := by
  rw [Complex.norm_eq_sqrt_sq_add_sq, sq, sq]
  rfl

end Point

namespace Arc

theorem pointAt_eq (arc : Arc ℝ) (direction : ℝ) : arc.pointAt direction =
    (arc.center.x + arc.radius * Real.cos direction,
      arc.center.y + arc.radius * Real.sin direction) := rfl

/-- What lies on a circle in the direction of a point is the point itself exactly if the circle goes
through it. -/
theorem pointAt_angleFrom_eq_iff (arc : Arc ℝ) (p : Point ℝ) :
    arc.pointAt (arc.center.angleFrom p) = p.xy ↔ arc.center.distance p = arc.radius := by
  have hcos := Complex.norm_mul_cos_arg (arc.center.seenFrom p)
  have hsin := Complex.norm_mul_sin_arg (arc.center.seenFrom p)
  have hre : (arc.center.seenFrom p).re = p.x - arc.center.x := rfl
  have him : (arc.center.seenFrom p).im = p.y - arc.center.y := rfl
  rw [Point.angleFrom_eq, Point.distance_eq, pointAt_eq, Point.xy, Prod.mk.injEq]
  generalize arc.center.seenFrom p = z at *
  constructor
  · rintro ⟨hx, hy⟩
    have hone := Real.cos_sq_add_sin_sq z.arg
    have hx' : ‖z‖ * Real.cos z.arg = arc.radius * Real.cos z.arg := by linarith
    have hy' : ‖z‖ * Real.sin z.arg = arc.radius * Real.sin z.arg := by linarith
    linear_combination (Real.cos z.arg) * hx' + (Real.sin z.arg) * hy' -
      (‖z‖ - arc.radius) * hone
  · intro h
    rw [← h, hcos, hsin]
    constructor <;> linarith

/-- All points that are sampled lie on the circle. -/
theorem distance_of_pointAt_eq {arc : Arc ℝ} (hradius : 0 ≤ arc.radius) {direction : ℝ}
    {p : Point ℝ} (h : arc.pointAt direction = p.xy) : arc.center.distance p = arc.radius := by
  rw [pointAt_eq, Point.xy, Prod.mk.injEq] at h
  have hone := Real.cos_sq_add_sin_sq direction
  have hnorm : ‖arc.center.seenFrom p‖ ^ 2 =
      (p.x - arc.center.x) ^ 2 + (p.y - arc.center.y) ^ 2 := by
    rw [Complex.sq_norm, Complex.normSq_apply, ← sq, ← sq]
    rfl
  have hsq : ‖arc.center.seenFrom p‖ ^ 2 = arc.radius ^ 2 := by
    rw [hnorm, ← h.1, ← h.2]
    linear_combination arc.radius ^ 2 * hone
  rw [Point.distance_eq]
  exact (pow_left_inj₀ (norm_nonneg _) hradius two_ne_zero).mp hsq

theorem sweep_clockwise (first last : ℝ) : sweep true first last =
    if 0 < last - first then last - first - 2 * Real.pi else last - first := by
  change (if decide (((0 : ℕ) : ℝ) < last - first) = true then
    last - first - ((2 : ℕ) : ℝ) * Real.pi else last - first) = _
  simp only [Nat.cast_zero, Nat.cast_ofNat, decide_eq_true_eq]

theorem sweep_counterclockwise (first last : ℝ) : sweep false first last =
    if last - first < 0 then last - first + 2 * Real.pi else last - first := by
  change (if decide (last - first < ((0 : ℕ) : ℝ)) = true then
    last - first + ((2 : ℕ) : ℝ) * Real.pi else last - first) = _
  simp only [Nat.cast_zero, Nat.cast_ofNat, decide_eq_true_eq]

/-- However it goes round, a sweep ends in the last direction, up to a whole turn. -/
theorem exists_add_sweep (clockwise : Bool) (first last : ℝ) :
    ∃ k : ℤ, first + sweep clockwise first last = last + k * (2 * Real.pi) := by
  cases clockwise with
  | true =>
    rw [sweep_clockwise]
    split
    · exact ⟨-1, by push_cast; ring⟩
    · exact ⟨0, by push_cast; ring⟩
  | false =>
    rw [sweep_counterclockwise]
    split
    · exact ⟨1, by push_cast; ring⟩
    · exact ⟨0, by push_cast; ring⟩

theorem pointAt_add_sweep (arc : Arc ℝ) (clockwise : Bool) (first last : ℝ) :
    arc.pointAt (first + sweep clockwise first last) = arc.pointAt last := by
  obtain ⟨k, hk⟩ := exists_add_sweep clockwise first last
  rw [hk, pointAt_eq, Real.cos_add_int_mul_two_pi, Real.sin_add_int_mul_two_pi, pointAt_eq]

section Range

variable {first last : ℝ} (hfirst : first ∈ Set.Icc (-Real.pi) Real.pi)
  (hlast : last ∈ Set.Icc (-Real.pi) Real.pi)
include hfirst hlast

/-- Both directions lie in one turn, so a sweep turned at most once has the sign of its
direction. -/
theorem sweep_clockwise_mem : sweep true first last ∈ Set.Icc (-(2 * Real.pi)) 0 := by
  obtain ⟨hfirst, hfirst'⟩ := hfirst
  obtain ⟨hlast, hlast'⟩ := hlast
  rw [sweep_clockwise]
  split <;> constructor <;> linarith

theorem sweep_counterclockwise_mem : sweep false first last ∈ Set.Icc 0 (2 * Real.pi) := by
  obtain ⟨hfirst, hfirst'⟩ := hfirst
  obtain ⟨hlast, hlast'⟩ := hlast
  rw [sweep_counterclockwise]
  split <;> constructor <;> linarith

end Range

/-- The angle that is stored and the direction are the sweep again. -/
theorem signedAngle_between (start finish : Point ℝ) (i j : ℝ) (clockwise : Bool) :
    (between start finish i j clockwise).signedAngle =
      sweep clockwise ((start.offset i j).angleFrom start)
        ((start.offset i j).angleFrom finish) := by
  let first := (start.offset i j).angleFrom start
  let last := (start.offset i j).angleFrom finish
  have hfirst : first ∈ Set.Icc (-Real.pi) Real.pi := Set.Ioc_subset_Icc_self (Complex.arg_mem_Ioc _)
  have hlast : last ∈ Set.Icc (-Real.pi) Real.pi := Set.Ioc_subset_Icc_self (Complex.arg_mem_Ioc _)
  cases clockwise with
  | true =>
    change -|sweep true first last| = sweep true first last
    rw [abs_of_nonpos (sweep_clockwise_mem hfirst hlast).2, neg_neg]
  | false =>
    change |sweep false first last| = sweep false first last
    exact abs_of_nonneg (sweep_counterclockwise_mem hfirst hlast).1

theorem radius_between_nonneg (start finish : Point ℝ) (i j : ℝ) (clockwise : Bool) :
    0 ≤ (between start finish i j clockwise).radius := Real.sqrt_nonneg _

/-- Whether a point lies on the circle, without roots. -/
theorem distance_between_eq_iff (start finish : Point ℝ) (i j : ℝ) (clockwise : Bool)
    (p : Point ℝ) :
    (between start finish i j clockwise).center.distance p =
        (between start finish i j clockwise).radius ↔
      (p.x - (start.x + i)) ^ 2 + (p.y - (start.y + j)) ^ 2 = i ^ 2 + j ^ 2 := by
  have hdistance : (between start finish i j clockwise).center.distance p =
      Real.sqrt ((p.x - (start.x + i)) * (p.x - (start.x + i)) +
        (p.y - (start.y + j)) * (p.y - (start.y + j))) := rfl
  have hradius : (between start finish i j clockwise).radius = Real.sqrt (i * i + j * j) := rfl
  have hnonneg (x y : ℝ) : 0 ≤ x * x + y * y := add_nonneg (mul_self_nonneg x) (mul_self_nonneg y)
  rw [hdistance, hradius, Real.sqrt_inj (hnonneg _ _) (hnonneg _ _)]
  simp only [sq]

/-- The circle goes through the start. -/
theorem distance_start_between (start finish : Point ℝ) (i j : ℝ) (clockwise : Bool) :
    (between start finish i j clockwise).center.distance start =
      (between start finish i j clockwise).radius := by
  rw [distance_between_eq_iff]
  ring

end Arc

end

end Waterjet
