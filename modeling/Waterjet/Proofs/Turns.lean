import Waterjet.Host.Standard
import Waterjet.Path.Arc
import Waterjet.Proofs.Magnitudes

/-! How far an arc of doubles sweeps. It is at most a whole turn, but it may be all of it. The two
sides of the cut of the directions are a turn apart and the same place, and a small turn the other
way is taken from a whole one and lost in rounding. -/
namespace Waterjet
open Number

/-- Finite doubles between a half turn backward and one forward. -/
def Number.IsDirection (x : Float) : Prop := -3.141592653589793 ≤ x ∧ x ≤ 3.141592653589793

instance (x : Float) : Decidable (IsDirection x) := inferInstanceAs (Decidable (_ ∧ _))

/-- What is documented of directions: they are within half a turn, and those of places to the left
on the axis depend on the sign of the zero. -/
structure Scalar.IsAtan2 (atan2 : Float → Float → Float) : Prop where
  range : ∀ y x, y.isNaN = false → x.isNaN = false → IsDirection (atan2 y x)
  above : ∀ x < 0, atan2 0.0 x = 3.141592653589793
  below : ∀ x < 0, atan2 (-0.0) x = -3.141592653589793

def Point.IsFinite (p : Point Float) : Prop := p.x.isFinite = true ∧ p.y.isFinite = true

instance (p : Point Float) : Decidable p.IsFinite := inferInstanceAs (Decidable (_ ∧ _))

namespace Number

variable {x y : Float}

/-- The significand of half a turn and of a whole one. -/
def turnSignificand : Nat := 7074237752028440

theorem decode_pi : decode 3.141592653589793 = .finite ⟨false, turnSignificand, -51⟩ := by
  decide

theorem decode_neg_pi : decode (-3.141592653589793) = .finite ⟨true, turnSignificand, -51⟩ := by
  decide

/-- A direction is finite. -/
theorem IsDirection.exists_decode (h : IsDirection x) :
    ∃ d, decode x = .finite d ∧ |d.toRat| ≤ turnSignificand * (2 : ℚ) ^ (-51 : ℤ) := by
  obtain ⟨hlow, hhigh⟩ := h
  cases hx : decode x with
  | nan =>
    rw [← isNaN_iff, isNaN_of_le hhigh] at hx
    cases hx
  | infinite negative =>
    rw [eq_infinity_of_decode hx] at hlow hhigh
    cases negative with
    | true => exact absurd hlow (by decide)
    | false => exact absurd hhigh (by decide)
  | finite d =>
    rw [le_iff_toRat decode_neg_pi hx] at hlow
    rw [le_iff_toRat hx decode_pi] at hhigh
    refine ⟨d, rfl, abs_le.mpr ⟨?_, ?_⟩⟩
    · refine le_trans (le_of_eq ?_) hlow
      rw [← Dyadic.value_magnitude ⟨true, turnSignificand, -51⟩]
      rfl
    · refine hhigh.trans (le_of_eq ?_)
      rw [← Dyadic.value_magnitude ⟨false, turnSignificand, -51⟩]
      rfl

/-- A whole turn. -/
def wholeTurn : Float := 2 * 3.141592653589793

def turnValue : ℚ := turnSignificand * 2 ^ (-50 : ℤ)

def turnBits : Nat := turnSignificand + 1024 * hiddenBit

theorem turnValue_pos : 0 < turnValue := by
  unfold turnValue turnSignificand
  positivity

theorem decode_wholeTurn : decode wholeTurn = .finite ⟨false, turnSignificand, -50⟩ := by
  decide

theorem decode_neg_wholeTurn : decode (-wholeTurn) = .finite ⟨true, turnSignificand, -50⟩ := by
  decide

theorem normal_turn : Dyadic.Normal ⟨false, turnSignificand, -50⟩ :=
  normal_of_decode decode_wholeTurn

theorem value_turn : (Dyadic.magnitude ⟨false, turnSignificand, -50⟩).value = turnValue :=
  Dyadic.value_magnitude _

theorem toRat_turn : Dyadic.toRat ⟨false, turnSignificand, -50⟩ = turnValue :=
  Dyadic.value_magnitude _

theorem toRat_neg_turn : Dyadic.toRat ⟨true, turnSignificand, -50⟩ = -turnValue :=
  congrArg Neg.neg (Dyadic.value_magnitude _)

theorem nearestBits_turn :
    nearestBits (Dyadic.magnitude ⟨false, turnSignificand, -50⟩) = turnBits := by
  decide

theorem finite_turn :
    nearestBits (Dyadic.magnitude ⟨false, turnSignificand, -50⟩) < infinityBits := by
  rw [nearestBits_turn]
  decide

theorem nearestBits_le_turnBits {r : Ratio} (hden : 0 < r.den) (h : r.value ≤ turnValue) :
    nearestBits r ≤ turnBits := by
  rw [← nearestBits_turn]
  exact nearestBits_mono hden (Dyadic.den_magnitude_pos _) (h.trans_eq value_turn.symm)

/-- Half the distance from a turn to the double before it. -/
def turnSlack : Float := 4.440892098500626e-16

theorem decode_turnSlack : decode turnSlack = .finite ⟨false, 2 ^ 52, -103⟩ := by decide

theorem decode_neg_turnSlack : decode (-turnSlack) = .finite ⟨true, 2 ^ 52, -103⟩ := by
  decide

theorem toRat_turnSlack : Dyadic.toRat ⟨false, 2 ^ 52, -103⟩ = 2 ^ (-51 : ℤ) := by
  refine (Dyadic.value_magnitude _).trans ?_
  norm_num

theorem toRat_neg_turnSlack : Dyadic.toRat ⟨true, 2 ^ 52, -103⟩ = -2 ^ (-51 : ℤ) :=
  congrArg Neg.neg toRat_turnSlack

/-- What falls short of a turn by no more than that is rounded to a turn. -/
theorem nearestBits_lt_turnBits {r : Ratio} (hden : 0 < r.den) :
    nearestBits r < turnBits ↔ r.value < turnValue - 2 ^ (-51 : ℤ) := by
  have h := nearestBits_lt_iff_of_even (m := turnSignificand) (k := 1024) hden (by decide)
    (by decide) (by decide) (by decide) (by decide)
  have hbound : ((turnSignificand : ℚ) - 1 / 2) * 2 ^ (minExponent + (1024 : Nat)) =
      turnValue - 2 ^ (-51 : ℤ) := by
    rw [turnValue, show minExponent + ((1024 : Nat) : Int) = -50 from rfl, sub_mul,
      show (-51 : Int) = -1 + -50 from rfl, zpow_add₀ two_ne_zero]
    norm_num
  rwa [hbound] at h

/-- Two directions are no more than a turn apart. -/
theorem IsDirection.exists_decode_sub (hx : IsDirection x) (hy : IsDirection y) :
    ∃ d, decode (x - y) = .finite d ∧ d.magnitude.value ≤ turnValue := by
  obtain ⟨a, ha, hale⟩ := hx.exists_decode
  obtain ⟨b, hb, hble⟩ := hy.exists_decode
  obtain ⟨r, hden, hvalue⟩ := Ratio.exists_value_eq (abs_nonneg (a.toRat - b.toRat))
  have hle : r.value ≤ turnValue := by
    have htwo : (2 : ℚ) ^ (-50 : ℤ) = 2 * 2 ^ (-51 : ℤ) := by norm_num
    have hsum := abs_sub a.toRat b.toRat
    rw [hvalue, turnValue, htwo]
    linarith
  have hbits := nearestBits_le_turnBits hden hle
  have hfinite : nearestBits r < infinityBits := hbits.trans_lt (by decide)
  obtain ⟨d, hd, -, hnormal, hnearest⟩ := exists_decode_signed (a.sumNegative b.neg) hfinite
  rw [sub_eq ha hb hden hvalue]
  refine ⟨d, hd, ?_⟩
  rw [← value_turn, ← not_lt, ← normal_turn.nearestBits_lt_iff hnormal finite_turn, not_lt,
    nearestBits_turn, hnearest]
  exact hbits

section Rest

variable {d : Dyadic} (hle : d.magnitude.value ≤ turnValue) {r : Ratio} (hden : 0 < r.den)
  (hvalue : r.value = turnValue - d.magnitude.value)
include hle hden hvalue

/-- What is left of a turn when a double is taken from it. -/
theorem abs_add_wholeTurn (hx : decode x = .finite d) (hneg : x < 0) :
    (x + wholeTurn).abs = ofRatio false r := by
  have hmagnitude := d.abs_toRat
  rw [abs_of_neg ((lt_zero_iff_toRat hx).mp hneg)] at hmagnitude
  have hsum : r.value = |d.toRat + Dyadic.toRat ⟨false, turnSignificand, -50⟩| := by
    rw [hvalue, toRat_turn, abs_of_nonneg (by linarith)]
    linarith
  rw [add_eq hx decode_wholeTurn hden hsum, abs_ofRatio]

theorem abs_sub_wholeTurn (hx : decode x = .finite d) (hpos : 0 < x) :
    (x - wholeTurn).abs = ofRatio false r := by
  have hmagnitude := d.abs_toRat
  rw [abs_of_pos ((zero_lt_iff_toRat hx).mp hpos)] at hmagnitude
  have hdifference : r.value = |d.toRat - Dyadic.toRat ⟨false, turnSignificand, -50⟩| := by
    rw [hvalue, toRat_turn, abs_of_nonpos (by linarith)]
    linarith
  rw [sub_eq hx decode_wholeTurn hden hdifference, abs_ofRatio]

end Rest

/-- The rest of a turn is less, unless the double is so small that it is lost. -/
theorem exists_rest {d : Dyadic} (hle : d.magnitude.value ≤ turnValue) :
    ∃ r : Ratio, 0 < r.den ∧ r.value = turnValue - d.magnitude.value ∧ nearestBits r ≤ turnBits ∧
      (nearestBits r < turnBits ↔ ¬ d.magnitude.value ≤ 2 ^ (-51 : ℤ)) := by
  obtain ⟨r, hden, hvalue⟩ := Ratio.exists_value_eq (sub_nonneg.mpr hle)
  refine ⟨r, hden, hvalue, ?_, ?_⟩
  · exact nearestBits_le_turnBits hden (by linarith [d.value_magnitude_nonneg])
  · rw [nearestBits_lt_turnBits hden, hvalue, sub_lt_sub_iff_left, not_le]

/-- A double that is not turned is less than a turn unless it is one. -/
theorem abs_le_wholeTurn {d : Dyadic} (hx : decode x = .finite d)
    (hle : d.magnitude.value ≤ turnValue) :
    ∃ r : Ratio, nearestBits r ≤ turnBits ∧ x.abs = ofRatio false r ∧
      (nearestBits r < turnBits ↔ ¬ turnValue ≤ d.magnitude.value) := by
  have hbits := nearestBits_le_turnBits d.den_magnitude_pos hle
  refine ⟨d.magnitude, hbits, abs_eq_ofRatio hx, ?_⟩
  rw [not_le, ← value_turn, ← nearestBits_turn]
  exact (normal_of_decode hx).nearestBits_lt_iff normal_turn (hbits.trans_lt (by decide))

/-- Up to a turn doubles are ordered by the bits of what they are nearest to. -/
theorem ofRatio_le_wholeTurn {r : Ratio} (hbits : nearestBits r ≤ turnBits) :
    ofRatio false r ≤ wholeTurn ∧ (ofRatio false r < wholeTurn ↔ nearestBits r < turnBits) := by
  have hfinite : nearestBits r < infinityBits := hbits.trans_lt (by decide)
  obtain ⟨d, hd, hnegative, hnormal, hnearest⟩ := exists_decode_ofBits hfinite
  have hd : decode (ofRatio false r) = .finite d := hd
  have hlt := hnormal.nearestBits_lt_iff normal_turn (hnearest.trans_lt hfinite)
  have hgt := normal_turn.nearestBits_lt_iff hnormal finite_turn
  rw [hnearest, nearestBits_turn, value_turn] at hlt hgt
  rw [le_iff_toRat hd decode_wholeTurn, lt_iff_toRat hd decode_wholeTurn, toRat_turn,
    Dyadic.toRat_of_nonneg hnegative, hlt]
  exact ⟨not_lt.mp (mt hgt.mpr hbits.not_gt), Iff.rfl⟩

end Number

namespace Arc

/-- A difference of directions that comes to a whole turn. It is one already, or it goes a little
the wrong way, so little that it is lost in the turn that it is taken from. -/
def ReachesTurn (clockwise : Bool) (delta : Float) : Prop :=
  if clockwise then delta ≤ -wholeTurn ∨ (0 < delta ∧ delta ≤ turnSlack)
  else wholeTurn ≤ delta ∨ (-turnSlack ≤ delta ∧ delta < 0)

instance (clockwise : Bool) (delta : Float) : Decidable (ReachesTurn clockwise delta) :=
  inferInstanceAs (Decidable (ite ..))

section ReachesTurn

variable {delta : Float} {d : Number.Dyadic} (hd : decode delta = .finite d)
include hd

theorem reachesTurn_counterclockwise : ReachesTurn false delta ↔
    if delta < 0 then d.magnitude.value ≤ 2 ^ (-51 : ℤ) else turnValue ≤ d.magnitude.value := by
  have hturn := turnValue_pos
  change wholeTurn ≤ delta ∨ (-turnSlack ≤ delta ∧ delta < 0) ↔ _
  rw [le_iff_toRat decode_wholeTurn hd, le_iff_toRat decode_neg_turnSlack hd, toRat_turn,
    toRat_neg_turnSlack, ← d.abs_toRat]
  split
  · next hneg =>
    have hvalue := (lt_zero_iff_toRat hd).mp hneg
    rw [abs_of_neg hvalue, neg_le, and_iff_left hneg]
    exact or_iff_right (hvalue.trans hturn).not_ge
  · next hnonneg =>
    have hvalue := not_lt.mp (mt (lt_zero_iff_toRat hd).mpr hnonneg)
    rw [abs_of_nonneg hvalue]
    exact or_iff_left fun h => hnonneg h.2

theorem reachesTurn_clockwise : ReachesTurn true delta ↔
    if 0 < delta then d.magnitude.value ≤ 2 ^ (-51 : ℤ) else turnValue ≤ d.magnitude.value := by
  have hturn := turnValue_pos
  change delta ≤ -wholeTurn ∨ (0 < delta ∧ delta ≤ turnSlack) ↔ _
  rw [le_iff_toRat hd decode_neg_wholeTurn, le_iff_toRat hd decode_turnSlack, toRat_neg_turn,
    toRat_turnSlack, ← d.abs_toRat]
  split
  · next hpos =>
    have hvalue := (zero_lt_iff_toRat hd).mp hpos
    rw [abs_of_pos hvalue, and_iff_right hpos]
    exact or_iff_right (by linarith)
  · next hnonpos =>
    have hvalue := not_lt.mp (mt (zero_lt_iff_toRat hd).mpr hnonpos)
    rw [abs_of_nonpos hvalue, le_neg]
    exact or_iff_left fun h => hnonpos h.1

end ReachesTurn

section Doubles

variable (norm : Number.Dyadic → Number.Dyadic → NonNegative) (atan2 : Float → Float → Float)
  (cos sin : Float → Float)

theorem sweep_doubles_counterclockwise (first last : Float) :
    @sweep Float (.doubles norm atan2 cos sin) false first last =
      if last - first < 0 then last - first + wholeTurn else last - first := by
  change (if decide (last - first < 0) = true then last - first + wholeTurn else last - first) = _
  simp only [decide_eq_true_eq]

theorem sweep_doubles_clockwise (first last : Float) :
    @sweep Float (.doubles norm atan2 cos sin) true first last =
      if 0 < last - first then last - first - wholeTurn else last - first := by
  change (if decide (0 < last - first) = true then last - first - wholeTurn else last - first) = _
  simp only [decide_eq_true_eq]

/-- The sweep between two directions, without its sign, is the double nearest to some number up to
a turn. -/
theorem exists_abs_sweep {first last : Float} (hfirst : IsDirection first)
    (hlast : IsDirection last) (clockwise : Bool) :
    ∃ r : Ratio, nearestBits r ≤ turnBits ∧
      (@sweep Float (.doubles norm atan2 cos sin) clockwise first last).abs = ofRatio false r ∧
      (nearestBits r < turnBits ↔ ¬ ReachesTurn clockwise (last - first)) := by
  obtain ⟨d, hd, hle⟩ := hlast.exists_decode_sub hfirst
  cases clockwise with
  | true =>
    rw [sweep_doubles_clockwise, reachesTurn_clockwise hd]
    split
    · next hpos =>
      obtain ⟨r, hden, hvalue, hbits, hlt⟩ := exists_rest hle
      exact ⟨r, hbits, abs_sub_wholeTurn hle hden hvalue hd hpos, hlt⟩
    · exact abs_le_wholeTurn hd hle
  | false =>
    rw [sweep_doubles_counterclockwise, reachesTurn_counterclockwise hd]
    split
    · next hneg =>
      obtain ⟨r, hden, hvalue, hbits, hlt⟩ := exists_rest hle
      exact ⟨r, hbits, abs_add_wholeTurn hle hden hvalue hd hneg, hlt⟩
    · exact abs_le_wholeTurn hd hle

/-- Arcs of finite doubles sweep a whole turn at most, and less exactly if the difference of the
directions does not come to one: directions on both sides of their cut, or apart by a rounding error
the wrong way. -/
theorem resolve?_angle_le_turn (norm : Number.Dyadic → Number.Dyadic → NonNegative)
    {atan2 : Float → Float → Float} (cos sin : Float → Float)
    (hrange : ∀ y x, y.isNaN = false → x.isNaN = false → IsDirection (atan2 y x))
    {start finish : Point Float} (hstart : start.IsFinite) (hfinish : finish.IsFinite)
    {i j : Float} (hi : i.isFinite = true) (hj : j.isFinite = true) (clockwise : Bool) :
    let center : Point Float := ⟨start.x + i, start.y + j, none⟩
    let first := atan2 (start.y - center.y) (start.x - center.x)
    let last := atan2 (finish.y - center.y) (finish.x - center.x)
    ∃ arc,
      @resolve? Float (.doubles norm atan2 cos sin) start finish (some i) (some j) clockwise =
        some arc ∧
      0 ≤ arc.angle ∧ arc.angle ≤ wholeTurn ∧
      (arc.angle < wholeTurn ↔ ¬ ReachesTurn clockwise (last - first)) := by
  intro center first last
  have hx : center.x.isNaN = false := isNaN_add_of_isFinite hstart.1 hi
  have hy : center.y.isNaN = false := isNaN_add_of_isFinite hstart.2 hj
  have hfirst : IsDirection first :=
    hrange _ _ (isNaN_sub_of_isFinite hstart.2 hy) (isNaN_sub_of_isFinite hstart.1 hx)
  have hlast : IsDirection last :=
    hrange _ _ (isNaN_sub_of_isFinite hfinish.2 hy) (isNaN_sub_of_isFinite hfinish.1 hx)
  obtain ⟨r, hbits, hangle, hlt⟩ := exists_abs_sweep norm atan2 cos sin hfirst hlast clockwise
  obtain ⟨hturn, hturn'⟩ := ofRatio_le_wholeTurn hbits
  have hangle : (@between Float (.doubles norm atan2 cos sin) start finish i j clockwise).angle =
      ofRatio false r := hangle
  refine ⟨_, rfl, ?_⟩
  rw [hangle]
  exact ⟨(IsAtLeast.ofRatio (Nat.zero_le _)).nonneg, hturn, hturn'.trans hlt⟩

end Doubles

/-- Directions on the axis. To the left the sign of the zero decides. -/
def axisAtan2 (y x : Float) : Float :=
  if x < 0 then if 1 / y < 0 then -3.141592653589793 else 3.141592653589793 else 0

theorem isAtan2_axisAtan2 : Scalar.IsAtan2 axisAtan2 where
  range y x _ _ := by
    have hback : IsDirection (-3.141592653589793) := by decide
    have hforth : IsDirection 3.141592653589793 := by decide
    have hzero : IsDirection 0 := by decide
    unfold axisAtan2
    split_ifs
    · exact hback
    · exact hforth
    · exact hzero
  above x hx := by
    have hzero : ¬ (1 : Float) / 0.0 < 0 := by decide
    rw [axisAtan2, if_pos hx, if_neg hzero]
  below x hx := by
    have hzero : (1 : Float) / -0.0 < 0 := by decide
    rw [axisAtan2, if_pos hx, if_pos hzero]

/-- Half a circle is less than a turn. -/
theorem resolve?_angle_half_circle :
    let start : Point Float := ⟨0, 0, none⟩
    let finish : Point Float := ⟨2, 0, none⟩
    Scalar.IsAtan2 axisAtan2 ∧ start.IsFinite ∧ finish.IsFinite ∧
      ∃ arc,
        @resolve? Float (.doubles Number.Dyadic.norm axisAtan2 id id) start finish (some 1)
          (some 0) true = some arc ∧
        arc.angle < wholeTurn := by
  intro start finish
  have hstart : start.IsFinite := by decide
  have hfinish : finish.IsFinite := by decide
  have hone : (1 : Float).isFinite = true := by decide
  have hzero : (0 : Float).isFinite = true := by decide
  obtain ⟨arc, harc, -, -, hlt⟩ :=
    resolve?_angle_le_turn Number.Dyadic.norm id id isAtan2_axisAtan2.range hstart hfinish hone
      hzero true
  refine ⟨isAtan2_axisAtan2, hstart, hfinish, arc, harc, hlt.mpr ?_⟩
  decide

/-- An arc from a place on the left of its center, with a zero below the axis, to the same place with
one above it: upward its sweep is a whole turn. -/
theorem resolve?_angle_whole_turn :
    ¬ ∀ (norm : Number.Dyadic → Number.Dyadic → NonNegative) (atan2 : Float → Float → Float)
      (cos sin : Float → Float), Scalar.IsAtan2 atan2 →
      ∀ (start finish : Point Float) (i j : Float) (clockwise : Bool),
        start.IsFinite → finish.IsFinite → i.isFinite = true → j.isFinite = true →
        ∃ arc,
          @resolve? Float (.doubles norm atan2 cos sin) start finish (some i) (some j) clockwise =
            some arc ∧
          0 ≤ arc.angle ∧ arc.angle < wholeTurn := by
  intro h
  let start : Point Float := ⟨0, -0.0, none⟩
  let finish : Point Float := ⟨0, 0.0, none⟩
  obtain ⟨arc, harc, -, hlt⟩ :=
    h Number.Dyadic.norm axisAtan2 id id isAtan2_axisAtan2 start finish 1 0 false
      (by decide) (by decide) (by decide) (by decide)
  have hangle :
      ¬ (@between Float (.doubles Number.Dyadic.norm axisAtan2 id id) start finish 1 0
        false).angle < wholeTurn := by
    decide
  exact hangle (Option.some.inj harc ▸ hlt)

end Arc

end Waterjet
