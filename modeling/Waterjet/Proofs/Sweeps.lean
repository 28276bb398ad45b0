import Waterjet.Proofs.Reals

/-! How far an arc sweeps, in exact arithmetic and for directions that are only known to lie within
half a turn of zero. The way round is the one asked for, it is no more than a whole turn, and it
arrives in the direction of the end. The two ways between two directions make up a turn, and a way
back is as long as the way there. -/
namespace Waterjet

/-- Exact arithmetic with numerals read and directions taken in a given way. -/
noncomputable abbrev Scalar.reals (read : Number.Decimal → ℝ) (atan2 : ℝ → ℝ → ℝ) : Scalar ℝ :=
  letI : Reading := ⟨read⟩
  { (inferInstance : Scalar ℝ) with atan2 }

namespace Arc

/-- An arc about a center sweeps from one direction to another, up to a whole turn. -/
structure SweepsFrom (arc : Arc ℝ) (clockwise : Bool) (center : Point ℝ) (first last : ℝ) : Prop where
  about : arc.center = center
  way : arc.clockwise = clockwise
  nonneg : 0 ≤ arc.angle
  le_turn : arc.angle ≤ 2 * Real.pi
  arrives : ∃ k : ℤ,
    first + (if clockwise then -arc.angle else arc.angle) = last + k * (2 * Real.pi)

/-- An arc is resolved unless an offset is missing. -/
theorem resolve?_eq_none_iff {α : Type} [Scalar α] (start finish : Point α) (i j : Option α)
    (clockwise : Bool) : resolve? start finish i j clockwise = none ↔ i = none ∨ j = none := by
  cases i <;> cases j <;> simp [resolve?]

section Sweep

variable [Reading] {first last : ℝ}

/-- The way back is the way there, the other way round. -/
theorem sweep_clockwise_eq_neg (first last : ℝ) : sweep true first last = -sweep false last first := by
  rw [sweep_clockwise, sweep_counterclockwise]
  by_cases h : 0 < last - first
  · rw [if_pos h, if_pos (by linarith)]
    ring
  · rw [if_neg h, if_neg (by linarith)]
    ring

theorem sweep_self (clockwise : Bool) (first : ℝ) : sweep clockwise first first = 0 := by
  cases clockwise with
  | true => rw [sweep_clockwise, sub_self, if_neg (lt_irrefl 0)]
  | false => rw [sweep_counterclockwise, sub_self, if_neg (lt_irrefl 0)]

/-- Between different directions the two ways make up a turn. -/
theorem sweep_counterclockwise_sub (h : first ≠ last) :
    sweep false first last - sweep true first last = 2 * Real.pi := by
  rw [sweep_clockwise, sweep_counterclockwise]
  rcases lt_or_gt_of_ne h with hlt | hgt
  · rw [if_neg (by linarith), if_pos (by linarith)]
    ring
  · rw [if_pos (by linarith), if_neg (by linarith)]
    ring

end Sweep

section Resolve

variable (read : Number.Decimal → ℝ) (atan2 : ℝ → ℝ → ℝ)

/-- The angle of an arc is its sweep without the sign. -/
theorem angle_between_reals (start finish : Point ℝ) (i j : ℝ) (clockwise : Bool) :
    letI : Reading := ⟨read⟩
    (@between ℝ (.reals read atan2) start finish i j clockwise).angle =
      |sweep clockwise (atan2 (start.y - (start.y + j)) (start.x - (start.x + i)))
        (atan2 (finish.y - (start.y + j)) (finish.x - (start.x + i)))| := rfl

variable {atan2} (hrange : ∀ y x, atan2 y x ∈ Set.Icc (-Real.pi) Real.pi)
include hrange

theorem sweepsFrom_between_reals (start finish : Point ℝ) (i j : ℝ) (clockwise : Bool) :
    (@between ℝ (.reals read atan2) start finish i j clockwise).SweepsFrom clockwise
      ⟨start.x + i, start.y + j, none⟩
      (atan2 (start.y - (start.y + j)) (start.x - (start.x + i)))
      (atan2 (finish.y - (start.y + j)) (finish.x - (start.x + i))) := by
  let inst : Reading := ⟨read⟩
  have hfirst := hrange (start.y - (start.y + j)) (start.x - (start.x + i))
  have hlast := hrange (finish.y - (start.y + j)) (finish.x - (start.x + i))
  have hangle := angle_between_reals read atan2 start finish i j clockwise
  generalize atan2 (start.y - (start.y + j)) (start.x - (start.x + i)) = first at *
  generalize atan2 (finish.y - (start.y + j)) (finish.x - (start.x + i)) = last at *
  obtain ⟨k, hk⟩ := exists_add_sweep clockwise first last
  cases clockwise with
  | true =>
    obtain ⟨hlow, hhigh⟩ := sweep_clockwise_mem hfirst hlast
    rw [abs_of_nonpos hhigh] at hangle
    refine ⟨rfl, rfl, ?_, ?_, k, ?_⟩
    · rw [hangle]
      linarith
    · rw [hangle]
      linarith
    · rw [hangle, if_pos rfl, neg_neg]
      exact hk
  | false =>
    obtain ⟨hlow, hhigh⟩ := sweep_counterclockwise_mem hfirst hlast
    rw [abs_of_nonneg hlow] at hangle
    refine ⟨rfl, rfl, ?_, ?_, k, ?_⟩
    · rw [hangle]
      exact hlow
    · rw [hangle]
      exact hhigh
    · rw [hangle, if_neg Bool.false_ne_true]
      exact hk

/-- An arc is resolved exactly if both offsets are there. Its sweep goes the way asked for, is no
more than a whole turn and arrives in the direction of the end; the two ways between different
directions make up a turn, and between equal ones both are nothing; and the way back about the same
center is as long, the other way round. -/
theorem resolve?_sweep (start finish : Point ℝ) :
    let resolve := @resolve? ℝ (.reals read atan2)
    (∀ i j clockwise, resolve start finish i j clockwise = none ↔ i = none ∨ j = none) ∧
    ∀ i j : ℝ,
      let center : Point ℝ := ⟨start.x + i, start.y + j, none⟩
      let first := atan2 (start.y - center.y) (start.x - center.x)
      let last := atan2 (finish.y - center.y) (finish.x - center.x)
      ∃ there other : Arc ℝ, resolve start finish (some i) (some j) true = some there ∧
        resolve start finish (some i) (some j) false = some other ∧
        there.SweepsFrom true center first last ∧ other.SweepsFrom false center first last ∧
        (first ≠ last → there.angle + other.angle = 2 * Real.pi) ∧
        (first = last → there.angle = 0 ∧ other.angle = 0) ∧
        ∀ i' j', finish.x + i' = center.x → finish.y + j' = center.y →
          ∃ back, resolve finish start (some i') (some j') false = some back ∧
            back.angle = there.angle := by
  intro resolve
  let inst : Reading := ⟨read⟩
  refine ⟨@resolve?_eq_none_iff ℝ (.reals read atan2) start finish, ?_⟩
  intro i j center first last
  have hthere := angle_between_reals read atan2 start finish i j true
  have hother := angle_between_reals read atan2 start finish i j false
  have hfirst : first ∈ Set.Icc (-Real.pi) Real.pi := hrange _ _
  have hlast : last ∈ Set.Icc (-Real.pi) Real.pi := hrange _ _
  change _ = |sweep true first last| at hthere
  change _ = |sweep false first last| at hother
  refine ⟨_, _, rfl, rfl, sweepsFrom_between_reals read hrange start finish i j true,
    sweepsFrom_between_reals read hrange start finish i j false, ?_, ?_, ?_⟩
  · intro hne
    rw [hthere, hother, abs_of_nonpos (sweep_clockwise_mem hfirst hlast).2,
      abs_of_nonneg (sweep_counterclockwise_mem hfirst hlast).1]
    linarith [sweep_counterclockwise_sub hne]
  · intro heq
    rw [hthere, hother, heq, sweep_self, sweep_self, abs_zero]
    exact ⟨rfl, rfl⟩
  · intro i' j' hx hy
    have hback := angle_between_reals read atan2 finish start i' j' false
    rw [hx, hy] at hback
    change _ = |sweep false last first| at hback
    refine ⟨_, rfl, ?_⟩
    rw [hback, hthere, sweep_clockwise_eq_neg, abs_neg]

end Resolve

/-- The start is seen on the cut of the directions and the end below it, so that the way round
upward has to be turned on by a whole turn. -/
theorem resolve?_sweep_over_cut :
    let atan2 : ℝ → ℝ → ℝ := fun y x => Complex.arg ⟨x, y⟩
    let resolve := @resolve? ℝ (.reals Number.Decimal.toReal atan2) ⟨0, 0, none⟩ ⟨1, -1, none⟩
    (∀ y x, atan2 y x ∈ Set.Icc (-Real.pi) Real.pi) ∧
      ∃ there other : Arc ℝ, resolve (some 1) (some 0) true = some there ∧
        resolve (some 1) (some 0) false = some other ∧
        there.SweepsFrom true ⟨1, 0, none⟩ Real.pi (-(Real.pi / 2)) ∧
        other.SweepsFrom false ⟨1, 0, none⟩ Real.pi (-(Real.pi / 2)) ∧
        there.angle + other.angle = 2 * Real.pi := by
  intro atan2 resolve
  have hrange (y x : ℝ) : atan2 y x ∈ Set.Icc (-Real.pi) Real.pi :=
    Set.Ioc_subset_Icc_self (Complex.arg_mem_Ioc _)
  have hfirst : atan2 (0 - (0 + 0)) (0 - (0 + 1)) = Real.pi := by
    have hseen : (⟨0 - (0 + 1), 0 - (0 + 0)⟩ : ℂ) = -1 := by
      apply Complex.ext <;> norm_num
    change Complex.arg ⟨0 - (0 + 1), 0 - (0 + 0)⟩ = Real.pi
    rw [hseen, Complex.arg_neg_one]
  have hlast : atan2 (-1 - (0 + 0)) (1 - (0 + 1)) = -(Real.pi / 2) := by
    have hseen : (⟨1 - (0 + 1), -1 - (0 + 0)⟩ : ℂ) = -Complex.I := by
      apply Complex.ext <;> norm_num
    change Complex.arg ⟨1 - (0 + 1), -1 - (0 + 0)⟩ = -(Real.pi / 2)
    rw [hseen, Complex.arg_neg_I]
  have hcenter : (⟨0 + 1, 0 + 0, none⟩ : Point ℝ) = ⟨1, 0, none⟩ := by
    rw [zero_add, zero_add]
  obtain ⟨-, harcs⟩ :=
    resolve?_sweep Number.Decimal.toReal hrange ⟨0, 0, none⟩ ⟨1, -1, none⟩
  obtain ⟨there, other, hthere, hother, hsweeps, hsweeps', hsum, -, -⟩ := harcs 1 0
  dsimp only at hsweeps hsweeps' hsum
  rw [hcenter, hfirst, hlast] at hsweeps hsweeps'
  rw [hfirst, hlast] at hsum
  have hne : Real.pi ≠ -(Real.pi / 2) := by linarith [Real.pi_pos]
  exact ⟨hrange, there, other, hthere, hother, hsweeps, hsweeps', hsum hne⟩

end Arc

end Waterjet
