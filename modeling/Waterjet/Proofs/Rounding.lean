import Waterjet.Proofs.Doubles
import Waterjet.Proofs.Ratios

/-! The nearest double by value. A ratio is rounded in units of the last place, and the bits do not
depend on how it is written. What is rounded to infinity starts halfway above the largest double, a
finite double is the nearest to its own value, and the shortcuts of numerals with huge exponents
change nothing. -/
namespace Waterjet.Number

section Nearest

variable {r s : Ratio}

theorem unitExponent_eq (hnum : 0 < r.num) (hden : 0 < r.den) :
    unitExponent r = max (Int.log 2 r.value - 52) minExponent := by
  unfold unitExponent
  dsimp only
  rw [Ratio.binaryExponent_eq hnum hden]
  split <;> omega

/-- The significand of the nearest double, before a carry. -/
def nearestSignificand (r : Ratio) : Nat := (r.scale 2 (-unitExponent r)).round

theorem nearestBits_eq (hnum : 0 < r.num) :
    nearestBits r = min (nearestSignificand r + (unitExponent r - minExponent).toNat * hiddenBit)
      infinityBits := by
  unfold nearestBits
  rw [if_neg hnum.ne']
  change (if nearestSignificand r + _ < _ then nearestSignificand r + _ else _) = _
  split <;> omega

/-- The nearest double does not depend on how a ratio is written. -/
theorem nearestBits_congr (hr : 0 < r.den) (hs : 0 < s.den) (h : r.value = s.value) :
    nearestBits r = nearestBits s := by
  have hzero : r.num = 0 ↔ s.num = 0 := by
    have hrq : (r.den : ℚ) ≠ 0 := by positivity
    have hsq : (s.den : ℚ) ≠ 0 := by positivity
    have hr0 : r.value = 0 ↔ r.num = 0 := by simp [Ratio.value, hrq]
    have hs0 : s.value = 0 ↔ s.num = 0 := by simp [Ratio.value, hsq]
    rw [← hr0, ← hs0, h]
  rcases Nat.eq_zero_or_pos r.num with h0 | hnum
  · rw [nearestBits, if_pos h0, nearestBits, if_pos (hzero.mp h0)]
  · have hsnum : 0 < s.num := Nat.pos_of_ne_zero (mt hzero.mpr hnum.ne')
    have hunit : unitExponent r = unitExponent s := by
      rw [unitExponent_eq hnum hr, unitExponent_eq hsnum hs, h]
    have hround : nearestSignificand r = nearestSignificand s := by
      unfold nearestSignificand
      rw [hunit]
      apply Ratio.round_congr (Ratio.den_scale_pos (by decide) _ hr)
        (Ratio.den_scale_pos (by decide) _ hs)
      rw [Ratio.value_scale (by decide), Ratio.value_scale (by decide), h]
    rw [nearestBits_eq hnum, nearestBits_eq hsnum, hunit, hround]

theorem value_scale_unit (r : Ratio) (e : Int) :
    (r.scale 2 (-e)).value = r.value / (2 : ℚ) ^ e := by
  rw [Ratio.value_scale (by decide), zpow_neg, div_eq_mul_inv]
  rfl

/-- The significand carries at most into the next power of two. -/
theorem nearestSignificand_le (hnum : 0 < r.num) (hden : 0 < r.den) :
    nearestSignificand r ≤ 2 ^ 53 := by
  apply Ratio.round_le_of_le (Ratio.den_scale_pos (by decide) _ hden)
  rw [value_scale_unit, div_le_iff₀ (by positivity), Nat.cast_pow, Nat.cast_ofNat,
    ← zpow_natCast, ← zpow_add₀ two_ne_zero, unitExponent_eq hnum hden]
  exact (Ratio.value_lt_two_zpow r).le.trans (zpow_le_zpow_right₀ one_le_two (by omega))

/-- It is short of the hidden bit only at the least exponent. -/
theorem le_nearestSignificand (hnum : 0 < r.num) (hden : 0 < r.den)
    (h : minExponent < unitExponent r) : 2 ^ 52 ≤ nearestSignificand r := by
  apply Ratio.le_round_of_le (Ratio.den_scale_pos (by decide) _ hden)
  rw [unitExponent_eq hnum hden] at h
  rw [value_scale_unit, le_div_iff₀ (by positivity), Nat.cast_pow, Nat.cast_ofNat,
    ← zpow_natCast, ← zpow_add₀ two_ne_zero, unitExponent_eq hnum hden]
  exact le_trans (zpow_le_zpow_right₀ one_le_two (by omega)) (Ratio.two_zpow_le_value hnum hden)

/-- A larger ratio has no smaller double. -/
theorem nearestBits_mono (hr : 0 < r.den) (hs : 0 < s.den) (h : r.value ≤ s.value) :
    nearestBits r ≤ nearestBits s := by
  rcases Nat.eq_zero_or_pos r.num with h0 | hnum
  · rw [nearestBits, if_pos h0]
    exact Nat.zero_le _
  have hpos : 0 < r.value := Ratio.value_pos hnum hr
  have hsnum : 0 < s.num := by
    rcases Nat.eq_zero_or_pos s.num with h0 | hsnum
    · have hzero : s.value = 0 := by simp [Ratio.value, h0]
      exact absurd (hpos.trans_le h) (by simp [hzero])
    · exact hsnum
  have hlog : Int.log 2 r.value ≤ Int.log 2 s.value := Int.log_mono_right hpos h
  have hunit : unitExponent r ≤ unitExponent s := by
    rw [unitExponent_eq hnum hr, unitExponent_eq hsnum hs]
    omega
  have hmin : minExponent ≤ unitExponent r := by
    rw [unitExponent_eq hnum hr]
    exact le_max_right ..
  rw [nearestBits_eq hnum, nearestBits_eq hsnum]
  apply min_le_min_right
  rcases hunit.lt_or_eq with hlt | heq
  · -- A carry takes the smaller one to the next exponent at most.
    have hupper := nearestSignificand_le hnum hr
    have hlower := le_nearestSignificand hsnum hs (hmin.trans_lt hlt)
    unfold hiddenBit
    omega
  · have hround : nearestSignificand r ≤ nearestSignificand s := by
      apply Ratio.round_mono (Ratio.den_scale_pos (by decide) _ hr)
        (Ratio.den_scale_pos (by decide) _ hs)
      rw [value_scale_unit, value_scale_unit, heq]
      exact div_le_div_of_nonneg_right h (by positivity)
    rw [heq]
    omega

/-- A ratio is rounded below a double with an even significand exactly if it is below the number
halfway to the one before. -/
theorem nearestBits_lt_iff_of_even (hr : 0 < r.den) {m k : Nat} (heven : m % 2 = 0)
    (hm : hiddenBit < m) (hm' : m ≤ 2 * hiddenBit) (hk : 0 < k)
    (hfinite : m + k * hiddenBit ≤ infinityBits) :
    nearestBits r < m + k * hiddenBit ↔ r.value < (m - 1 / 2) * (2 : ℚ) ^ (minExponent + k) := by
  obtain ⟨e, hexponent⟩ : ∃ e, minExponent + (k : Int) = e := ⟨_, rfl⟩
  rw [hexponent]
  have hpower : (0 : ℚ) < 2 ^ e := by positivity
  have hlower : (2 : ℚ) ^ (52 + e) ≤ (m - 1 / 2) * 2 ^ e := by
    have hcast : (hiddenBit : ℚ) + 1 ≤ m := by exact_mod_cast hm
    rw [zpow_add₀ two_ne_zero]
    apply mul_le_mul_of_nonneg_right _ hpower.le
    rw [show (2 : ℚ) ^ (52 : Int) = hiddenBit by norm_num [hiddenBit]]
    linarith
  have hupper : (m - 1 / 2) * (2 : ℚ) ^ e ≤ 2 ^ (53 + e) := by
    have hcast : (m : ℚ) ≤ 2 * hiddenBit := by exact_mod_cast hm'
    rw [zpow_add₀ two_ne_zero]
    apply mul_le_mul_of_nonneg_right _ hpower.le
    rw [show (2 : ℚ) ^ (53 : Int) = 2 * hiddenBit by norm_num [hiddenBit]]
    linarith
  rcases Nat.eq_zero_or_pos r.num with h0 | hnum
  · have hvalue : r.value = 0 := by simp [Ratio.value, h0]
    rw [nearestBits, if_pos h0, hvalue]
    exact iff_of_true (by omega) (lt_of_lt_of_le (by positivity) hlower)
  have hden : 0 < (r.scale 2 (-unitExponent r)).den := Ratio.den_scale_pos (by decide) _ hr
  have hunit : unitExponent r = max (Int.log 2 r.value - 52) minExponent := unitExponent_eq hnum hr
  have hbits : nearestBits r < m + k * hiddenBit ↔
      nearestSignificand r + (unitExponent r - minExponent).toNat * hiddenBit
        < m + k * hiddenBit := by
    rw [nearestBits_eq hnum, min_lt_iff, or_iff_left hfinite.not_gt]
  rw [hbits]
  rcases lt_trichotomy (Int.log 2 r.value) (52 + e) with hlt | heq | hgt
  · have hround := nearestSignificand_le hnum hr
    have hbelow : r.value < 2 ^ (52 + e) :=
      (Ratio.value_lt_two_zpow r).trans_le (zpow_le_zpow_right₀ one_le_two (by omega))
    have hbelow' : (unitExponent r - minExponent).toNat + 1 ≤ k := by omega
    have hmul := Nat.mul_le_mul_right hiddenBit hbelow'
    rw [Nat.succ_mul] at hmul
    unfold hiddenBit at *
    exact iff_of_true (by omega) (hbelow.trans_le hlower)
  · have hunit' : unitExponent r - minExponent = k := by omega
    have he : unitExponent r = e := by omega
    have hround : nearestSignificand r < m ↔
        r.value < (m - 1 / 2) * (2 : ℚ) ^ e := by
      unfold nearestSignificand
      rw [Ratio.round_lt_iff_of_even hden heven, value_scale_unit, he, div_lt_iff₀ hpower]
    rw [← hround, hunit', Int.toNat_natCast]
    omega
  · have habove : (2 : ℚ) ^ (53 + e) ≤ r.value :=
      le_trans (zpow_le_zpow_right₀ one_le_two (by omega)) (Ratio.two_zpow_le_value hnum hr)
    have hround := le_nearestSignificand hnum hr (by omega)
    have habove' : k + 1 ≤ (unitExponent r - minExponent).toNat := by omega
    have hmul := Nat.mul_le_mul_right hiddenBit habove'
    rw [Nat.succ_mul] at hmul
    unfold hiddenBit at *
    exact iff_of_false (by omega) (not_lt.mpr (hupper.trans habove))

/-- Halfway between the largest double and the next power of two: what is rounded to infinity
starts here. -/
def overflowBound : Nat := (2 ^ 54 - 1) * 2 ^ 970

theorem overflowBound_eq : (overflowBound : ℚ) = (2 ^ 53 - 1 / 2) * 2 ^ (971 : Int) := by
  rw [show (971 : Int) = 1 + (970 : Nat) from rfl, zpow_add₀ two_ne_zero, zpow_one, zpow_natCast,
    ← mul_assoc, overflowBound, Nat.cast_mul, Nat.cast_pow, Nat.cast_ofNat]
  norm_num only

theorem two_pow_le_overflowBound : 2 ^ 54 ≤ overflowBound := by
  unfold overflowBound
  generalize hk : 970 = k
  obtain ⟨k, rfl⟩ := Nat.exists_eq_succ_of_ne_zero (hk ▸ (by decide) : k ≠ 0)
  calc 2 ^ 54 ≤ (2 ^ 54 - 1) * 2 := by decide
    _ ≤ (2 ^ 54 - 1) * 2 ^ (k + 1) := Nat.mul_le_mul_left _ (Nat.le_self_pow (Nat.succ_ne_zero k) 2)

theorem overflowBound_lt : overflowBound < (2 : ℚ) ^ (1024 : Int) := by
  rw [overflowBound_eq, show (1024 : Int) = 53 + 971 from rfl, zpow_add₀ two_ne_zero]
  exact mul_lt_mul_of_pos_right (by norm_num) (by positivity)

/-- A ratio has a finite nearest double exactly below the bound. -/
theorem nearestBits_lt_iff (hr : 0 < r.den) :
    nearestBits r < infinityBits ↔ r.value < overflowBound := by
  have h := nearestBits_lt_iff_of_even (m := 2 ^ 53) (k := 2045) hr (by decide) (by decide)
    (by decide) (by decide) (by decide)
  rwa [Nat.cast_pow, Nat.cast_ofNat, show minExponent + ((2045 : Nat) : Int) = 971 from rfl,
    ← overflowBound_eq] at h

theorem nearestBits_eq_infinity (hr : 0 < r.den) (h : overflowBound ≤ r.value) :
    nearestBits r = infinityBits :=
  le_antisymm (nearestBits_le r) (not_lt.mp (mt (nearestBits_lt_iff hr).mp (not_lt.mpr h)))

/-- What is below half of the least double is rounded to zero. -/
theorem nearestBits_eq_zero (hr : 0 < r.den) (h : r.value < (2 : ℚ) ^ (-1075 : Int)) :
    nearestBits r = 0 := by
  rcases Nat.eq_zero_or_pos r.num with h0 | hnum
  · rw [nearestBits, if_pos h0]
  · have hpos : 0 < r.value := Ratio.value_pos hnum hr
    have hlog : Int.log 2 r.value < -1075 :=
      (Int.lt_zpow_iff_log_lt (by decide) hpos).mp (by exact_mod_cast h)
    have he : unitExponent r = minExponent := by
      rw [unitExponent_eq hnum hr]
      unfold minExponent
      omega
    have hhalf : (2 : ℚ) ^ (-1075 : Int) = 1 / 2 * 2 ^ minExponent := by
      rw [show (-1075 : Int) = -1 + minExponent from rfl, zpow_add₀ two_ne_zero, zpow_neg_one,
        one_div]
    have hround : nearestSignificand r = 0 := by
      apply Ratio.round_eq_zero (Ratio.den_scale_pos (by decide) _ hr)
      rw [value_scale_unit, he, div_lt_iff₀ (by positivity)]
      exact h.trans_eq hhalf
    rw [nearestBits_eq hnum, hround, he]
    simp

end Nearest

/-- The shortcuts of numerals with huge exponents change nothing. -/
theorem Decimal.toDouble_eq (d : Decimal) : d.toDouble = ofRatio d.negative d.magnitude := by
  have hden : 0 < d.magnitude.den := Ratio.den_scale_pos (by decide) _ Nat.one_pos
  have hvalue : d.magnitude.value = d.coefficient * (10 : ℚ) ^ d.exponent := by
    rw [magnitude, Ratio.value_scale (by decide), Ratio.value_ofNat]
    rfl
  unfold Decimal.toDouble
  dsimp only
  split
  · next hzero =>
    have hnum : d.magnitude.num = 0 := by simp [magnitude, Ratio.scale, Ratio.ofNat, hzero]
    rw [ofRatio, nearestBits, if_pos hnum]
    rfl
  next hzero =>
  have hcoefficient : (2 : ℚ) ^ d.coefficient.log2 ≤ d.coefficient := by
    exact_mod_cast Nat.log2_self_le hzero
  have hcoefficient' : (d.coefficient : ℚ) < 2 ^ (d.coefficient.log2 + 1) := by
    exact_mod_cast Nat.lt_log2_self
  split
  · next hlarge =>
    have hbound : (overflowBound : ℚ) ≤ d.magnitude.value := by
      have hpow : (8 : ℚ) ^ d.exponent ≤ 10 ^ d.exponent :=
        zpow_le_zpow_left₀ hlarge.1 (by norm_num) (by norm_num)
      calc (overflowBound : ℚ) ≤ (2 : ℚ) ^ (1024 : Int) := overflowBound_lt.le
        _ ≤ (2 : ℚ) ^ ((d.coefficient.log2 : Int) + 3 * d.exponent) :=
          zpow_le_zpow_right₀ one_le_two hlarge.2
        _ = (2 : ℚ) ^ d.coefficient.log2 * 8 ^ d.exponent := by
          rw [zpow_add₀ two_ne_zero, zpow_natCast, zpow_mul]
          norm_num
        _ ≤ d.coefficient * 10 ^ d.exponent := by gcongr
        _ = d.magnitude.value := hvalue.symm
    rw [ofRatio, nearestBits_eq_infinity hden hbound]
    rfl
  split
  · next hsmall =>
    have hbound : d.magnitude.value < (2 : ℚ) ^ (-1075 : Int) := by
      have hpow : (10 : ℚ) ^ d.exponent ≤ 8 ^ d.exponent := by
        have hle : (8 : ℚ) ^ (-d.exponent) ≤ 10 ^ (-d.exponent) :=
          zpow_le_zpow_left₀ (by omega) (by norm_num) (by norm_num)
        rw [zpow_neg, zpow_neg] at hle
        exact (inv_le_inv₀ (by positivity) (by positivity)).mp hle
      calc d.magnitude.value = d.coefficient * (10 : ℚ) ^ d.exponent := hvalue
        _ < 2 ^ (d.coefficient.log2 + 1) * 8 ^ d.exponent :=
          mul_lt_mul hcoefficient' hpow (by positivity) (by positivity)
        _ = (2 : ℚ) ^ ((d.coefficient.log2 : Int) + 1 + 3 * d.exponent) := by
          rw [zpow_add₀ two_ne_zero, zpow_mul, ← zpow_natCast]
          norm_num
        _ ≤ (2 : ℚ) ^ (-1075 : Int) := zpow_le_zpow_right₀ one_le_two (by omega)
    rw [ofRatio, nearestBits_eq_zero hden hbound]
    rfl
  · rfl

section Exact

/-- A significand that fits, at an exponent that is no larger than it has to be. -/
structure Dyadic.Normal (d : Dyadic) : Prop where
  fits : d.significand < 2 * hiddenBit
  least : minExponent ≤ d.exponent
  normal : hiddenBit ≤ d.significand ∨ d.exponent = minExponent

theorem Dyadic.value_magnitude (d : Dyadic) :
    d.magnitude.value = d.significand * (2 : ℚ) ^ d.exponent := by
  rw [magnitude, Ratio.value_scale (by decide), Ratio.value_ofNat, Nat.cast_ofNat]

theorem Dyadic.den_magnitude_pos (d : Dyadic) : 0 < d.magnitude.den :=
  Ratio.den_scale_pos (by decide) _ Nat.one_pos

theorem Dyadic.nearestBits_of_zero {d : Dyadic} (h : d.significand = 0) :
    nearestBits d.magnitude = 0 := by
  have hnum : d.magnitude.num = 0 := by
    rw [magnitude, h]
    exact Nat.zero_mul _
  rw [nearestBits, if_pos hnum]

/-- Such a value has a double of its own, unless its exponent is too large for any. -/
theorem nearestBits_magnitude {d : Dyadic} (h : d.Normal) :
    nearestBits d.magnitude =
      min (d.significand + (d.exponent - minExponent).toNat * hiddenBit) infinityBits := by
  obtain ⟨hfits, hleast, hnormal⟩ := h
  have hden : 0 < d.magnitude.den := d.den_magnitude_pos
  rcases Nat.eq_zero_or_pos d.significand with hzero | hpos
  · have hnum : d.magnitude.num = 0 := by simp [Dyadic.magnitude, Ratio.scale, Ratio.ofNat, hzero]
    have hexponent : d.exponent = minExponent := hnormal.resolve_left (by rw [hzero]; decide)
    rw [nearestBits, if_pos hnum, hzero, hexponent, Int.sub_self]
    rfl
  have hnum : 0 < d.magnitude.num := Nat.mul_pos hpos (Nat.pow_pos (by decide))
  have hvalue : d.magnitude.value = d.significand * (2 : ℚ) ^ d.exponent := d.value_magnitude
  have hunit : unitExponent d.magnitude = d.exponent := by
    have hmagnitude : 0 < d.magnitude.value := Ratio.value_pos hnum hden
    have hupper : Int.log 2 d.magnitude.value < 53 + d.exponent := by
      apply (Int.lt_zpow_iff_log_lt (by decide) hmagnitude).mp
      rw [hvalue, Nat.cast_ofNat, zpow_add₀ two_ne_zero]
      have hcast : (d.significand : ℚ) < 2 ^ (53 : Int) := by exact_mod_cast hfits
      gcongr
    have hlower : hiddenBit ≤ d.significand →
        52 + d.exponent ≤ Int.log 2 d.magnitude.value := by
      intro hhidden
      apply (Int.zpow_le_iff_le_log (by decide) hmagnitude).mp
      rw [hvalue, Nat.cast_ofNat, zpow_add₀ two_ne_zero]
      have hcast : (2 : ℚ) ^ (52 : Int) ≤ d.significand := by exact_mod_cast hhidden
      gcongr
    rw [unitExponent_eq hnum hden]
    omega
  have hround : nearestSignificand d.magnitude = d.significand := by
    apply Ratio.round_eq_of_value (Ratio.den_scale_pos (by decide) _ hden)
    rw [value_scale_unit, hunit, hvalue, mul_div_cancel_right₀ _ (by positivity)]
  rw [nearestBits_eq hnum, hround, hunit]

/-- In this form a value has one significand and one exponent. -/
theorem Dyadic.Normal.value_eq {d e : Dyadic} (hd : d.Normal) (he : e.Normal)
    (h : nearestBits d.magnitude = nearestBits e.magnitude)
    (hfinite : nearestBits d.magnitude < infinityBits) : d.magnitude.value = e.magnitude.value := by
  have hfinite' := h ▸ hfinite
  rw [nearestBits_magnitude hd] at h hfinite
  rw [nearestBits_magnitude he] at h hfinite'
  obtain ⟨hfits, hleast, hnormal⟩ := hd
  obtain ⟨hfits', hleast', hnormal'⟩ := he
  have hsame : d.significand = e.significand ∧ d.exponent = e.exponent := by
    unfold hiddenBit at *
    omega
  rw [d.value_magnitude, e.value_magnitude, hsame.1, hsame.2]

/-- The bits have the order of the values. -/
theorem Dyadic.Normal.nearestBits_lt_iff {d e : Dyadic} (hd : d.Normal) (he : e.Normal)
    (hfinite : nearestBits d.magnitude < infinityBits) :
    nearestBits d.magnitude < nearestBits e.magnitude ↔ d.magnitude.value < e.magnitude.value := by
  constructor
  · intro hlt
    by_contra hle
    exact hlt.not_ge (nearestBits_mono e.den_magnitude_pos d.den_magnitude_pos (not_lt.mp hle))
  · intro hlt
    apply lt_of_le_of_ne (nearestBits_mono d.den_magnitude_pos e.den_magnitude_pos hlt.le)
    intro heq
    exact hlt.ne (hd.value_eq he heq hfinite)

/-- What is decoded is in normal form, and its own bits are those of the nearest double. -/
theorem of_decodeBits {bits : Nat} {d : Dyadic} (h : decodeBits bits = .finite d) :
    d.negative = decide (signBit ≤ bits) ∧ d.Normal ∧
      nearestBits d.magnitude = bits % signBit ∧ bits % signBit < infinityBits := by
  unfold decodeBits at h
  simp only [beq_iff_eq] at h
  have hsplit := Nat.div_add_mod' (bits % signBit) hiddenBit
  have hfraction : bits % signBit % hiddenBit < hiddenBit := Nat.mod_lt _ (by decide)
  generalize bits % signBit = rest at *
  generalize rest / hiddenBit = field at *
  generalize rest % hiddenBit = fraction at *
  split at h
  · split at h <;> cases h
  next htop =>
  have hrest : rest < infinityBits := Nat.lt_of_not_le htop
  split at h
  · next hfield =>
    cases h
    rw [hfield, Nat.zero_mul, Nat.zero_add] at hsplit
    have hnormal : Dyadic.Normal ⟨decide (signBit ≤ bits), fraction, minExponent⟩ :=
      ⟨hfraction.trans (by decide), le_rfl, .inr rfl⟩
    refine ⟨rfl, hnormal, ?_, hrest⟩
    rw [nearestBits_magnitude hnormal, hsplit]
    change min (rest + 0 * hiddenBit) infinityBits = rest
    omega
  · next hfield =>
    cases h
    have hcarry : fraction + hiddenBit + (field - 1) * hiddenBit = rest := by
      rw [Nat.add_assoc, Nat.add_comm hiddenBit, ← Nat.succ_mul, Nat.succ_eq_add_one,
        Nat.sub_add_cancel (Nat.pos_of_ne_zero hfield), Nat.add_comm, hsplit]
    have hfits : fraction + hiddenBit < 2 * hiddenBit := by omega
    have hexponent : ((field : Int) - 1 + minExponent - minExponent).toNat = field - 1 := by omega
    have hnormal : Dyadic.Normal ⟨decide (signBit ≤ bits), fraction + hiddenBit,
        (field : Int) - 1 + minExponent⟩ :=
      ⟨hfits, by dsimp only; omega, .inl (Nat.le_add_left ..)⟩
    refine ⟨rfl, hnormal, ?_, hrest⟩
    rw [nearestBits_magnitude hnormal, hexponent, hcarry]
    exact min_eq_left hrest.le

/-- Bits with the bit of the sign in front. -/
def signedBits (negative : Bool) (bits : Nat) : Nat := if negative then signBit + bits else bits

theorem eq_ofBits {x : Float} {negative : Bool} {bits : Nat}
    (h : x.toBits.toNat = signedBits negative bits) : x = ofBits negative bits := by
  change x = Float.ofBits (UInt64.ofNat (signedBits negative bits))
  rw [← h, UInt64.ofNat_toNat, Float.ofBits_toBits]

theorem signedBits_mod {bits : Nat} (h : bits < 2 * signBit) :
    signedBits (decide (signBit ≤ bits)) (bits % signBit) = bits := by
  unfold signedBits
  by_cases hsign : signBit ≤ bits
  · rw [decide_eq_true hsign, if_pos rfl, Nat.mod_eq_sub_mod hsign, Nat.mod_eq_of_lt (by omega)]
    omega
  · rw [decide_eq_false hsign, if_neg (by decide), Nat.mod_eq_of_lt (by omega)]

/-- A finite double is the nearest to its own value. -/
theorem ofRatio_magnitude {x : Float} {d : Dyadic} (h : decode x = .finite d) :
    ofRatio d.negative d.magnitude = x := by
  obtain ⟨hnegative, -, hbits, -⟩ := of_decodeBits h
  have hlt : x.toBits.toNat < 2 * signBit := x.toBits.toNat_lt
  rw [ofRatio, hbits, hnegative]
  exact (eq_ofBits (signedBits_mod hlt).symm).symm

theorem eq_infinity_of_decode {x : Float} {negative : Bool} (h : decode x = .infinite negative) :
    x = infinity negative := by
  have hlt : x.toBits.toNat < 2 * signBit := x.toBits.toNat_lt
  have hmod := signedBits_mod hlt
  have hrest : x.toBits.toNat % signBit < signBit := Nat.mod_lt _ (by decide)
  unfold decode decodeBits at h
  dsimp only at h
  split at h
  next htop =>
    split at h
    next hfraction =>
      cases h
      have hbits : x.toBits.toNat % signBit = infinityBits := by
        rw [beq_iff_eq] at hfraction
        unfold signBit hiddenBit infinityBits at *
        omega
      rw [hbits] at hmod
      exact eq_ofBits hmod.symm
    · cases h
  · split at h <;> cases h

end Exact

end Waterjet.Number
