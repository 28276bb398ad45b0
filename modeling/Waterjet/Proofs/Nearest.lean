import Waterjet.Proofs.Signed

/-! The nearest double is the nearest. A ratio is rounded to an integer that no other is closer to,
and the units of the last place that it is rounded in are fine enough for every double around it, so
no double at all is closer than the one found. Of two that are as close it has the even significand,
and it is a zero up to half of the least double. -/
namespace Waterjet.Number
namespace Ratio
variable {r : Ratio}

/-- The value is its whole part and a rest, as a part of one. -/
theorem value_eq_add (hr : 0 < r.den) :
    r.value = (r.num / r.den : Nat) + ((r.num % r.den : Nat) : ℚ) / r.den := by
  have hden : (r.den : ℚ) ≠ 0 := by positivity
  have hsplit : ((r.num / r.den : Nat) : ℚ) * r.den + (r.num % r.den : Nat) = r.num := by
    exact_mod_cast Nat.div_add_mod' r.num r.den
  rw [value, ← hsplit, add_div, mul_div_cancel_right₀ _ hden]

theorem round_error (hr : 0 < r.den) : |(r.round : ℚ) - r.value| ≤ 1 / 2 ∧
    (|(r.round : ℚ) - r.value| = 1 / 2 → r.round % 2 = 0) := by
  have hden : (0 : ℚ) < r.den := by exact_mod_cast hr
  have hrest : 0 ≤ ((r.num % r.den : Nat) : ℚ) / r.den := by positivity
  have hless : ((r.num % r.den : Nat) : ℚ) / r.den < 1 := by
    rw [div_lt_one hden]
    exact_mod_cast Nat.mod_lt _ hr
  have hlow : 2 * (r.num % r.den) < r.den ↔ ((r.num % r.den : Nat) : ℚ) / r.den < 1 / 2 := by
    rw [div_lt_div_iff₀ hden two_pos]
    norm_cast
    omega
  have hhigh : r.den < 2 * (r.num % r.den) ↔ 1 / 2 < ((r.num % r.den : Nat) : ℚ) / r.den := by
    rw [div_lt_div_iff₀ two_pos hden]
    norm_cast
    omega
  rw [value_eq_add hr]
  unfold round
  dsimp only
  generalize ((r.num % r.den : Nat) : ℚ) / r.den = rest at *
  generalize r.num / r.den = whole at *
  split
  next h =>
    have hsmall := hlow.mp h
    rw [sub_add_cancel_left, abs_neg, abs_of_nonneg hrest]
    exact ⟨hsmall.le, fun htie => absurd htie hsmall.ne⟩
  next h =>
  have hlarge : 1 / 2 ≤ rest := not_lt.mp (mt hlow.mpr h)
  split
  next h' =>
    have hmore := hhigh.mp h'
    rw [Nat.cast_succ, add_sub_add_left_eq_sub, abs_of_pos (by linarith)]
    exact ⟨by linarith, fun htie => absurd htie (by linarith)⟩
  next h' =>
    have htie : rest = 1 / 2 := le_antisymm (not_lt.mp (mt hhigh.mpr h')) hlarge
    refine ⟨?_, fun _ => by omega⟩
    rw [htie, Nat.cast_add, add_sub_add_left_eq_sub]
    rcases Nat.mod_two_eq_zero_or_one whole with hw | hw <;> rw [hw] <;> norm_num [abs_le]

/-- No integer is closer to a ratio than the one it is rounded to, and that is even if another is
as close. -/
theorem round_nearest (hr : 0 < r.den) (k : ℤ) :
    |(r.round : ℚ) - r.value| ≤ |(k : ℚ) - r.value| ∧
    (|(r.round : ℚ) - r.value| = |(k : ℚ) - r.value| → k = r.round ∨ r.round % 2 = 0) := by
  by_cases hk : k = r.round
  · subst hk
    exact ⟨le_rfl, fun _ => .inl rfl⟩
  obtain ⟨herror, heven⟩ := round_error hr
  have happart : (1 : ℚ) ≤ |(k : ℚ) - r.round| := by
    exact_mod_cast Int.one_le_abs (sub_ne_zero.mpr hk)
  have htriangle := abs_sub_le (k : ℚ) r.value r.round
  rw [abs_sub_comm r.value] at htriangle
  refine ⟨by linarith, fun htie => .inr (heven ?_)⟩
  linarith

theorem round_eq_zero_iff (hr : 0 < r.den) : r.round = 0 ↔ r.value ≤ 1 / 2 := by
  constructor
  · intro hround
    by_contra hlarge
    exact (round_pos hr (not_le.mp hlarge)).ne' hround
  · intro hle
    rcases hle.lt_or_eq with hlt | htie
    · exact round_eq_zero hr hlt
    · obtain ⟨herror, heven⟩ := round_error hr
      have hone : r.round ≤ 1 := round_le_of_le hr (by rw [htie]; norm_num)
      interval_cases hround : r.round
      · rfl
      · rw [htie] at heven
        exact absurd (heven (by norm_num [abs_of_pos])) (by decide)

end Ratio

section Nearest

variable {r : Ratio}

/-- The double of a ratio is a natural of units, even if the last one carries. -/
theorem value_of_nearestBits (hnum : 0 < r.num) (hden : 0 < r.den) {d : Dyadic} (hd : d.Normal)
    (hbits : nearestBits d.magnitude = nearestBits r) (hfinite : nearestBits r < infinityBits) :
    d.magnitude.value = nearestSignificand r * (2 : ℚ) ^ unitExponent r ∧
      d.significand % 2 = nearestSignificand r % 2 := by
  have hle := nearestSignificand_le hnum hden
  have hge := le_nearestSignificand hnum hden
  have hunit : minExponent ≤ unitExponent r := by
    rw [unitExponent_eq hnum hden]
    exact le_max_right ..
  rw [← hbits, nearestBits_magnitude hd] at hfinite
  rw [nearestBits_magnitude hd, nearestBits_eq hnum] at hbits
  obtain ⟨hfits, hleast, hnormal⟩ := hd
  obtain ⟨hsignificand, hexponent⟩ | ⟨hcarry, hsignificand, hexponent⟩ :
      d.significand = nearestSignificand r ∧ d.exponent = unitExponent r ∨
      nearestSignificand r = 2 ^ 53 ∧ d.significand = 2 ^ 52 ∧
        d.exponent = unitExponent r + 1 := by
    unfold hiddenBit at *
    omega
  · rw [d.value_magnitude, hsignificand, hexponent]
    exact ⟨rfl, rfl⟩
  · rw [d.value_magnitude, hsignificand, hexponent, hcarry, zpow_add₀ two_ne_zero]
    refine ⟨by norm_num; ring, by decide⟩

/-- Nothing that a double can have for its magnitude is closer. -/
theorem nearestSignificand_nearest (hnum : 0 < r.num) (hden : 0 < r.den) {d : Dyadic}
    (hd : d.Normal) :
    let x := nearestSignificand r * (2 : ℚ) ^ unitExponent r
    |x - r.value| ≤ |d.magnitude.value - r.value| ∧
      (|x - r.value| = |d.magnitude.value - r.value| →
        d.magnitude.value = x ∨ nearestSignificand r % 2 = 0) := by
  intro x
  let u : ℚ := (2 : ℚ) ^ unitExponent r
  have hu : 0 < u := by positivity
  have hscaled : 0 < (r.scale 2 (-unitExponent r)).den := Ratio.den_scale_pos (by decide) _ hden
  have hlattice (k : ℤ) : |x - r.value| ≤ |k * u - r.value| ∧
      (|x - r.value| = |k * u - r.value| → k * u = x ∨ nearestSignificand r % 2 = 0) := by
    have hscale (q : ℚ) : |q * u - r.value| = |q - r.value / u| * u := by
      rw [← abs_of_pos hu, ← abs_mul, abs_of_pos hu, sub_mul, div_mul_cancel₀ _ hu.ne']
    obtain ⟨hle, htie⟩ := Ratio.round_nearest hscaled k
    rw [value_scale_unit] at hle htie
    have hx : x = nearestSignificand r * u := rfl
    rw [hx, hscale, hscale]
    refine ⟨mul_le_mul_of_nonneg_right hle hu.le, fun h => ?_⟩
    refine (htie (mul_right_cancel₀ hu.ne' h)).imp_left fun hk => ?_
    rw [hk]
    rfl
  rw [d.value_magnitude]
  rcases le_or_gt (unitExponent r) d.exponent with hle | hlt
  · -- The magnitude is a whole number of units.
    have hwhole : (d.significand : ℚ) * (2 : ℚ) ^ d.exponent =
        ((d.significand * 2 ^ (d.exponent - unitExponent r).toNat : ℤ) : ℚ) * u := by
      have hsum : d.exponent = ((d.exponent - unitExponent r).toNat : Int) + unitExponent r := by
        omega
      conv => lhs; rw [hsum, zpow_add₀ two_ne_zero, zpow_natCast]
      push_cast
      ring
    rw [hwhole]
    exact hlattice _
  · -- The magnitude is below all of the doubles that have the unit of the ratio.
    have hunit := unitExponent_eq hnum hden
    have hleast := hd.least
    have hbottom : (2 : ℚ) ^ (52 : ℤ) * u ≤ r.value := by
      rw [← zpow_add₀ two_ne_zero]
      exact (zpow_le_zpow_right₀ one_le_two (by omega)).trans (Ratio.two_zpow_le_value hnum hden)
    have hbelow : (d.significand : ℚ) * (2 : ℚ) ^ d.exponent < (2 : ℚ) ^ (52 : ℤ) * u := by
      have hfits : (d.significand : ℚ) < 2 ^ (53 : ℤ) := by exact_mod_cast hd.fits
      calc (d.significand : ℚ) * (2 : ℚ) ^ d.exponent
          < 2 ^ (53 : ℤ) * (2 : ℚ) ^ d.exponent := by gcongr
        _ = (2 : ℚ) ^ (53 + d.exponent) := (zpow_add₀ two_ne_zero _ _).symm
        _ ≤ (2 : ℚ) ^ (52 + unitExponent r) := zpow_le_zpow_right₀ one_le_two (by omega)
        _ = (2 : ℚ) ^ (52 : ℤ) * u := zpow_add₀ two_ne_zero _ _
    obtain ⟨hclose, -⟩ := hlattice (2 ^ 52)
    have hcast : ((2 ^ 52 : ℤ) : ℚ) = (2 : ℚ) ^ (52 : ℤ) := by norm_num
    rw [hcast, abs_of_nonpos (sub_nonpos.mpr hbottom)] at hclose
    rw [abs_of_neg (sub_neg.mpr (hbelow.trans_le hbottom))]
    refine ⟨by linarith, fun h => by linarith⟩

theorem Dyadic.normal_zero (negative : Bool) : (Dyadic.mk negative 0 minExponent).Normal :=
  ⟨Nat.mul_pos two_pos (by decide), le_rfl, .inr rfl⟩

/-- Up to half of the least double it is zero that is nearest. -/
theorem nearestBits_eq_zero_iff (hden : 0 < r.den) :
    nearestBits r = 0 ↔ r.value ≤ (2 : ℚ) ^ (-1075 : ℤ) := by
  rcases Nat.eq_zero_or_pos r.num with h0 | hnum
  · have hvalue : r.value = 0 := by simp [Ratio.value, h0]
    rw [nearestBits, if_pos h0, hvalue]
    exact iff_of_true rfl (by positivity)
  have hscaled : 0 < (r.scale 2 (-unitExponent r)).den := Ratio.den_scale_pos (by decide) _ hden
  have hunit := unitExponent_eq hnum hden
  have hhalf : (2 : ℚ) ^ (-1075 : ℤ) = 1 / 2 * 2 ^ minExponent := by
    rw [show (-1075 : ℤ) = -1 + minExponent from rfl, zpow_add₀ two_ne_zero, zpow_neg_one, one_div]
  have hbits : nearestBits r = 0 ↔
      nearestSignificand r = 0 ∧ unitExponent r = minExponent := by
    have hge := le_nearestSignificand hnum hden
    rw [nearestBits_eq hnum]
    unfold hiddenBit infinityBits
    omega
  have hround : nearestSignificand r = 0 ↔ r.value ≤ 1 / 2 * 2 ^ unitExponent r := by
    rw [nearestSignificand, Ratio.round_eq_zero_iff hscaled, value_scale_unit,
      div_le_iff₀ (by positivity)]
  rw [hbits, hround, hhalf]
  constructor
  · rintro ⟨hle, he⟩
    rwa [he] at hle
  · intro hle
    have hlog : Int.log 2 r.value < 0 + minExponent := by
      apply (Int.lt_zpow_iff_log_lt (by decide) (Ratio.value_pos hnum hden)).mp
      refine hle.trans_lt ?_
      rw [Nat.cast_ofNat, zero_add]
      linarith [show (0 : ℚ) < 2 ^ minExponent by positivity]
    have he : unitExponent r = minExponent := by omega
    rw [he]
    exact ⟨hle, rfl⟩

end Nearest

section Signs

/-- The number with its sign. -/
def withSign (negative : Bool) (q : ℚ) : ℚ := if negative then -q else q

theorem Dyadic.toRat_eq (d : Dyadic) : d.toRat = withSign d.negative d.magnitude.value := rfl

theorem abs_withSign_sub (negative : Bool) (p q : ℚ) :
    |withSign negative p - withSign negative q| = |p - q| := by
  cases negative with
  | false => rfl
  | true =>
    change |-p - -q| = |p - q|
    rw [neg_sub_neg, abs_sub_comm]

/-- No double is closer to the number, and the significand is even if another one is as close. -/
structure Dyadic.RoundsNearestEven (d : Dyadic) (q : ℚ) : Prop where
  nearest : ∀ y e, decode y = .finite e → |d.toRat - q| ≤ |e.toRat - q|
  even : ∀ y e, decode y = .finite e → |d.toRat - q| = |e.toRat - q| →
    e.toRat = d.toRat ∨ d.significand % 2 = 0

/-- The double nearest to a number of the given sign and magnitude: an infinity from halfway above
the largest double on, and a zero up to half of the least. -/
structure IsNearest (negative : Bool) (magnitude : ℚ) (x : Float) : Prop where
  number : x.isNaN = false
  infinite : overflowBound ≤ magnitude → x = infinity negative
  finite : magnitude < overflowBound → ∃ d, decode x = .finite d ∧ d.negative = negative ∧
    d.RoundsNearestEven (withSign negative magnitude) ∧
    (d.significand = 0 ↔ magnitude ≤ (2 : ℚ) ^ (-1075 : ℤ))

variable {r : Ratio}

theorem magnitude_nearest (hden : 0 < r.den) {d : Dyadic} (hd : d.Normal)
    (hbits : nearestBits d.magnitude = nearestBits r) (hfinite : nearestBits r < infinityBits)
    {e : Dyadic} (he : e.Normal) :
    |d.magnitude.value - r.value| ≤ |e.magnitude.value - r.value| ∧
      (|d.magnitude.value - r.value| = |e.magnitude.value - r.value| →
        e.magnitude.value = d.magnitude.value ∨ d.significand % 2 = 0) := by
  rcases Nat.eq_zero_or_pos r.num with h0 | hnum
  · have hvalue : r.value = 0 := by simp [Ratio.value, h0]
    have hzero : d.significand = 0 := by
      rw [nearestBits_magnitude hd, nearestBits, if_pos h0] at hbits
      unfold infinityBits at hbits
      omega
    rw [d.value_magnitude, hzero, hvalue, Nat.cast_zero, zero_mul, sub_zero, abs_zero]
    exact ⟨abs_nonneg _, fun _ => .inr rfl⟩
  · obtain ⟨hvalue, hparity⟩ := value_of_nearestBits hnum hden hd hbits hfinite
    rw [hvalue, hparity]
    exact nearestSignificand_nearest hnum hden he

/-- On the other side of zero nothing is closer than zero is. -/
theorem signed_nearest (hden : 0 < r.den) {d : Dyadic} (hd : d.Normal)
    (hbits : nearestBits d.magnitude = nearestBits r) (hfinite : nearestBits r < infinityBits)
    {e : Dyadic} (he : e.Normal) {w : ℚ} (hw : w = e.magnitude.value ∨ w = -e.magnitude.value) :
    |d.magnitude.value - r.value| ≤ |w - r.value| ∧
      (|d.magnitude.value - r.value| = |w - r.value| →
        w = d.magnitude.value ∨ d.significand % 2 = 0) := by
  have hsame := magnitude_nearest hden hd hbits hfinite he
  obtain rfl | rfl := hw
  · exact hsame
  rcases e.value_magnitude_nonneg.eq_or_lt with hzero | hpos
  · rwa [← hzero, neg_zero, hzero]
  · have hvalue : 0 ≤ r.value := by
      unfold Ratio.value
      positivity
    obtain ⟨hnone, -⟩ := magnitude_nearest hden hd hbits hfinite (Dyadic.normal_zero false)
    rw [Dyadic.value_magnitude ⟨false, 0, minExponent⟩, Nat.cast_zero, zero_mul, zero_sub, abs_neg,
      abs_of_nonneg hvalue] at hnone
    have hfar : |-e.magnitude.value - r.value| = e.magnitude.value + r.value := by
      rw [← neg_add', abs_neg, abs_of_pos (by linarith)]
    rw [hfar]
    exact ⟨by linarith, fun htie => by linarith⟩

theorem isNearest_ofRatio (negative : Bool) (hden : 0 < r.den) :
    IsNearest negative r.value (ofRatio negative r) where
  number := isNaN_ofRatio negative r
  infinite h := by
    rw [ofRatio, nearestBits_eq_infinity hden h]
    rfl
  finite h := by
    have hfinite : nearestBits r < infinityBits := (nearestBits_lt_iff hden).mpr h
    obtain ⟨d, hd, hnegative, hnormal, hbits⟩ := exists_decode_signed negative hfinite
    have hclose (y : Float) (e : Dyadic) (he : decode y = .finite e) :
        |d.toRat - withSign negative r.value| ≤ |e.toRat - withSign negative r.value| ∧
          (|d.toRat - withSign negative r.value| = |e.toRat - withSign negative r.value| →
            e.toRat = d.toRat ∨ d.significand % 2 = 0) := by
      obtain ⟨-, he, -, -⟩ := of_decodeBits he
      obtain ⟨w, hw, heq⟩ : ∃ w, (w = e.magnitude.value ∨ w = -e.magnitude.value) ∧
          e.toRat = withSign negative w := by
        rw [e.toRat_eq]
        cases negative <;> cases e.negative
        · exact ⟨_, .inl rfl, rfl⟩
        · exact ⟨_, .inr rfl, rfl⟩
        · exact ⟨_, .inr rfl, (neg_neg _).symm⟩
        · exact ⟨_, .inl rfl, rfl⟩
      rw [d.toRat_eq, hnegative, heq, abs_withSign_sub, abs_withSign_sub]
      obtain ⟨hle, htie⟩ := signed_nearest hden hnormal hbits hfinite he hw
      exact ⟨hle, fun h => (htie h).imp_left (congrArg (withSign negative))⟩
    have hzero : d.significand = 0 ↔ nearestBits r = 0 := by
      rw [← hbits, nearestBits_magnitude hnormal]
      have hnormal' := hnormal.normal
      unfold hiddenBit infinityBits at *
      omega
    exact ⟨d, hd, hnegative, ⟨fun y e he => (hclose y e he).1, fun y e he => (hclose y e he).2⟩,
      hzero.trans (nearestBits_eq_zero_iff hden)⟩

end Signs

end Waterjet.Number
