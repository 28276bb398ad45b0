import Waterjet.Proofs.Signed

/-! The arithmetic of doubles rounds correctly. A sum, a product and a quotient of finite doubles
that are not negative are the doubles nearest to the exact values, and so is a natural as a
double. -/
namespace Waterjet.Number
open Float.Model Float.Model.UnpackedFloat

section Operations

variable {x y : Float} {a b : Dyadic} {r : Ratio}

/-- How a finite double that is not negative is unpacked. -/
theorem unpack_of_decode (hx : decode x = .finite a) (ha : a.negative = false) :
    (a.significand = 0 ∧ x.toModel.unpack = .zero .positive) ∨
      ∃ hm, x.toModel.unpack = .finite .positive a.significand a.exponent hm := by
  rw [decode_eq] at hx
  cases hu : x.toModel.unpack with
  | notANumber => rw [hu] at hx; cases hx
  | infinity s => rw [hu] at hx; cases hx
  | zero s =>
    rw [hu] at hx
    cases hx
    cases s with
    | negative => cases ha
    | positive => exact .inl ⟨rfl, rfl⟩
  | finite s m e hm =>
    rw [hu] at hx
    cases hx
    cases s with
    | negative => cases ha
    | positive => exact .inr ⟨hm, rfl⟩

theorem mul_unpack (x y : Float) : x * y =
    .ofModel (.pack (UnpackedFloat.mul Format.binary64 x.toModel.unpack y.toModel.unpack)) := rfl

theorem div_unpack (x y : Float) : x / y =
    .ofModel (.pack (UnpackedFloat.div Format.binary64 x.toModel.unpack y.toModel.unpack)) := rfl

/-- The sum of two doubles that are not negative is the nearest double. -/
theorem add_eq_ofRatio (hx : decode x = .finite a) (hy : decode y = .finite b)
    (ha : a.negative = false) (hb : b.negative = false) (hden : 0 < r.den)
    (hvalue : r.value = a.magnitude.value + b.magnitude.value) : x + y = ofRatio false r := by
  have hsum : r.value = |a.toRat + b.toRat| := by
    rw [hvalue, Dyadic.toRat_of_nonneg ha, Dyadic.toRat_of_nonneg hb, abs_of_nonneg
      (add_nonneg a.value_magnitude_nonneg b.value_magnitude_nonneg)]
  rw [add_eq hx hy hden hsum, Dyadic.sumNegative_of_nonneg ha hb]

/-- The quotient of a double that is not negative by a positive one is the nearest double. -/
theorem div_eq_ofRatio (hx : decode x = .finite a) (hy : decode y = .finite b)
    (ha : a.negative = false) (hb : b.negative = false) (hpos : 0 < b.significand)
    (hden : 0 < r.den) (hvalue : r.value = a.magnitude.value / b.magnitude.value) :
    x / y = ofRatio false r := by
  rw [Dyadic.value_magnitude, Dyadic.value_magnitude] at hvalue
  obtain ⟨hb0, -⟩ | ⟨hn, hyu⟩ := unpack_of_decode hy hb
  · exact absurd hb0 hpos.ne'
  rw [div_unpack, hyu]
  obtain ⟨ha0, hxu⟩ | ⟨hm, hxu⟩ := unpack_of_decode hx ha
  · rw [hxu]
    have hzero : r.value = (Ratio.ofNat 0).value := by
      rw [hvalue, ha0, Ratio.value_ofNat]
      simp
    rw [ofRatio_congr hden Nat.one_pos hzero]
    rfl
  · rw [hxu]
    obtain ⟨q, hq, hquotient, hbits⟩ := toNat_pack_div hm hn a.exponent b.exponent
    rw [ofModel_pack hbits]
    exact ofRatio_congr hq hden (hquotient.trans hvalue.symm) false

/-- The product of two doubles that are not negative is the nearest double. -/
theorem mul_eq_ofRatio (hx : decode x = .finite a) (hy : decode y = .finite b)
    (ha : a.negative = false) (hb : b.negative = false) (hden : 0 < r.den)
    (hvalue : r.value = a.magnitude.value * b.magnitude.value) : x * y = ofRatio false r := by
  rw [Dyadic.value_magnitude, Dyadic.value_magnitude] at hvalue
  have hzero (h : r.value = 0) : ofRatio false r = .ofModel (.pack (.zero .positive)) := by
    have hvalue0 : r.value = (Ratio.ofNat 0).value := by simp [h, Ratio.value_ofNat]
    rw [ofRatio_congr hden Nat.one_pos hvalue0]
    rfl
  rw [mul_unpack]
  obtain ⟨ha0, hxu⟩ | ⟨hm, hxu⟩ := unpack_of_decode hx ha
  · rw [hzero (by rw [hvalue, ha0]; simp)]
    obtain ⟨-, hyu⟩ | ⟨hn, hyu⟩ := unpack_of_decode hy hb
    · rw [hxu, hyu]
      rfl
    · rw [hxu, hyu]
      rfl
  obtain ⟨hb0, hyu⟩ | ⟨hn, hyu⟩ := unpack_of_decode hy hb
  · rw [hzero (by rw [hvalue, hb0]; simp), hxu, hyu]
    rfl
  · have hproduct : 0 < a.significand * b.significand := Nat.mul_pos hm hn
    have hunit : a.exponent + b.exponent ≤ unitExponent ((Ratio.ofNat
        (a.significand * b.significand)).scale 2 (a.exponent + b.exponent)) := by
      have hnormal (h : hiddenBit ≤ a.significand * b.significand) :
          52 ≤ (a.significand * b.significand).log2 := (Nat.le_log2 hproduct.ne').mpr h
      rw [unitExponent_ofNat hproduct]
      rcases (of_decodeBits hx).2.1.normal with hhidden | hleast
      · have := hnormal (hhidden.trans (Nat.le_mul_of_pos_right _ hn))
        omega
      rcases (of_decodeBits hy).2.1.normal with hhidden | hleast'
      · have := hnormal (hhidden.trans (Nat.le_mul_of_pos_left _ hm))
        omega
      · unfold minExponent at *
        omega
    have hbits := toNat_pack_exact .positive hproduct hunit
    rw [hxu, hyu]
    refine (ofModel_pack hbits).trans ?_
    refine ofRatio_congr (Ratio.den_scale_pos (by decide) _ Nat.one_pos) hden ?_ false
    rw [hvalue, Ratio.value_scale (by decide), Ratio.value_ofNat, zpow_add₀ (by norm_num)]
    push_cast
    ring

/-- A natural becomes the nearest double. -/
theorem ofNat_eq_ofRatio (n : Nat) : Float.ofNat n = ofRatio false (.ofNat n) := by
  have hscale (m : Nat) (e : Int) (h : (m : ℚ) * ((2 : Nat) : ℚ) ^ e = n) :
      ofRatio false ((Ratio.ofNat m).scale 2 e) = ofRatio false (.ofNat n) := by
    refine ofRatio_congr (Ratio.den_scale_pos (by decide) _ Nat.one_pos) Nat.one_pos ?_ false
    rw [Ratio.value_scale (by decide), Ratio.value_ofNat, Ratio.value_ofNat, h]
  change Float.ofScientific n false 0 = _
  unfold Float.ofScientific
  by_cases hsmall : n < 2 ^ 53
  · -- A natural that fits is exact, and then multiplied by one.
    have hword : n.toUInt64.toNat = n := UInt64.toNat_ofNat_of_lt' (hsmall.trans (by decide))
    have hexact : n.toUInt64.toFloat = ofRatio false (.ofNat n) := by
      change Float.ofModel (.pack (UnpackedFloat.normalize Format.binary64
        (n.toUInt64.toNat : Int) 0 .positive)) = _
      have hvalue : (Ratio.ofNat n).value = |((n : ℤ) : ℚ) * 2 ^ (0 : ℤ)| := by
        rw [Ratio.value_ofNat, zpow_zero, mul_one, Int.cast_natCast, abs_of_nonneg n.cast_nonneg]
      have hnonneg : decide ((n : ℤ) < 0) = false := decide_eq_false (not_lt.mpr n.cast_nonneg)
      rw [hword, normalize_eq_ofRatio Nat.one_pos hvalue, hnonneg]
    have hone : decode (Float.ofBits 0x3FF0000000000000) = .finite ⟨false, 2 ^ 52, -52⟩ := by
      decide
    have hfinite : nearestBits (.ofNat n) < infinityBits := by
      rw [nearestBits_lt_iff Nat.one_pos, Ratio.value_ofNat, Nat.cast_lt]
      exact hsmall.trans_le (le_trans (by decide) two_pow_le_overflowBound)
    obtain ⟨a, ha, hnegative, -, -⟩ := exists_decode_ofBits hfinite
    rw [dif_pos ⟨hsmall, by decide⟩, if_neg (by decide)]
    change n.toUInt64.toFloat * Float.ofBits 0x3FF0000000000000 = _
    rw [hexact]
    refine (mul_eq_ofRatio ha hone hnegative rfl a.den_magnitude_pos ?_).trans ?_
    · rw [Dyadic.value_magnitude ⟨false, 2 ^ 52, -52⟩]
      norm_num
    · have hown := ofRatio_magnitude ha
      rwa [hnegative] at hown
  · rw [dif_neg fun h => hsmall h.1]
    have hpos : 0 < n := by omega
    have hshift : 0 < n <<< 53 := by
      rw [Nat.shiftLeft_eq]
      positivity
    have hunit : (-53 : Int) ≤ unitExponent ((Ratio.ofNat (n <<< 53)).scale 2 (-53)) := by
      rw [unitExponent_ofNat hshift, log2_shiftLeft hpos]
      omega
    have hbits := toNat_pack_exact .positive hshift hunit
    have hmodel : UnpackedFloat.ofScientific Format.binary64 n 0 =
        roundWithAccuracy Format.binary64 .positive (n <<< 53) (-53) .exact := by
      have hlow : ¬ (0 : Int) < -(2 ^ 11 + (n.log2 : Int)) := by omega
      unfold UnpackedFloat.ofScientific
      rw [dif_neg hpos.ne', if_neg (by decide), if_neg hlow, if_pos le_rfl]
      change roundWithAccuracy Format.binary64 .positive (n <<< 53 * 1) (-53) .exact = _
      rw [Nat.mul_one]
    change Float.ofModel (.pack (UnpackedFloat.ofScientific Format.binary64 n 0)) = _
    rw [hmodel, ofModel_pack hbits]
    apply hscale
    rw [Nat.shiftLeft_eq]
    push_cast
    rw [mul_assoc]
    norm_num

end Operations

end Waterjet.Number
