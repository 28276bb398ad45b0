import Waterjet.Number.Hypot
import Waterjet.Proofs.Arithmetic

/-! Lower bounds that sums and quotients of doubles keep. -/
namespace Waterjet.Number
open Float.Model Float.Model.UnpackedFloat

section Units

/-- So many times the least positive double, for which there is a double up to the fifty-third
power of two. -/
def units (k : Nat) : Ratio := (Ratio.ofNat k).scale 2 minExponent

theorem den_units_pos (k : Nat) : 0 < (units k).den := Ratio.den_scale_pos (by decide) _ Nat.one_pos

theorem value_units (k : Nat) : (units k).value = k * (2 : ℚ) ^ minExponent := by
  rw [units, Ratio.value_scale (by decide), Ratio.value_ofNat, Nat.cast_ofNat]

theorem nearestBits_units {k : Nat} (h : k ≤ 2 ^ 53) : nearestBits (units k) = k := by
  rcases h.lt_or_eq with hlt | rfl
  · have hbits := nearestBits_magnitude (d := ⟨false, k, minExponent⟩) ⟨hlt, le_rfl, .inr rfl⟩
    rw [Int.sub_self] at hbits
    refine hbits.trans ?_
    change min (k + 0 * hiddenBit) infinityBits = k
    unfold infinityBits
    omega
  · decide +kernel

theorem min_units_le_value {bits : Nat} {d : Dyadic} (h : decodeBits bits = .finite d)
    (hbits : bits < signBit) : (units (min bits (2 ^ 53))).value ≤ d.magnitude.value := by
  rw [value_units, Dyadic.value_magnitude]
  unfold decodeBits at h
  rw [Nat.mod_eq_of_lt hbits] at h
  simp only [beq_iff_eq] at h
  have hsplit := Nat.div_add_mod' bits hiddenBit
  generalize bits / hiddenBit = field at *
  generalize bits % hiddenBit = fraction at *
  split at h
  · split at h <;> cases h
  split at h
  · next hfield =>
    cases h
    have hle : ((min bits (2 ^ 53) : Nat) : ℚ) ≤ fraction := by
      rw [hfield, Nat.zero_mul, Nat.zero_add] at hsplit
      rw [hsplit]
      exact_mod_cast min_le_left bits (2 ^ 53)
    gcongr
  · next hfield =>
    cases h
    obtain ⟨k, rfl⟩ := Nat.exists_eq_succ_of_ne_zero hfield
    have hle : min bits (2 ^ 53) ≤ (fraction + hiddenBit) * 2 ^ k := by
      cases k with
      | zero =>
        rw [← hsplit]
        simp [Nat.add_comm]
      | succ k =>
        calc min bits (2 ^ 53) ≤ 2 ^ 53 := min_le_right ..
          _ = hiddenBit * 2 := rfl
          _ ≤ (fraction + hiddenBit) * 2 ^ (k + 1) :=
            Nat.mul_le_mul (Nat.le_add_left ..) (Nat.le_self_pow (Nat.succ_ne_zero k) 2)
    have hexponent : ((k + 1 : Nat) : Int) - 1 + minExponent = k + minExponent := by omega
    dsimp only
    rw [hexponent, zpow_add₀ two_ne_zero, zpow_natCast, ← mul_assoc]
    have hcast : ((min bits (2 ^ 53) : Nat) : ℚ) ≤ ((fraction + hiddenBit : Nat) : ℚ) * 2 ^ k := by
      exact_mod_cast hle
    gcongr

/-- What is more than half of the least positive double is not rounded to zero. -/
theorem nearestBits_pos {r : Ratio} (hden : 0 < r.den) (h : (2 : ℚ) ^ minExponent < 2 * r.value) :
    0 < nearestBits r := by
  have hunit : (0 : ℚ) < 2 ^ minExponent := by positivity
  have hnum : 0 < r.num := by
    rcases Nat.eq_zero_or_pos r.num with hzero | hpos
    · have hvalue : r.value = 0 := by simp [Ratio.value, hzero]
      rw [hvalue] at h
      linarith
    · exact hpos
  have hsignificand : 0 < nearestSignificand r := by
    rcases (le_max_right _ _ : minExponent ≤ max (Int.log 2 r.value - 52) minExponent).lt_or_eq
      with hlt | heq
    · rw [← unitExponent_eq hnum hden] at hlt
      exact Nat.lt_of_lt_of_le (by decide) (le_nearestSignificand hnum hden hlt)
    · rw [← unitExponent_eq hnum hden] at heq
      apply Ratio.round_pos (Ratio.den_scale_pos (by decide) _ hden)
      rw [value_scale_unit, ← heq, lt_div_iff₀ hunit]
      linarith
  have hinfinity : 0 < infinityBits := by decide
  rw [nearestBits_eq hnum]
  omega

/-- So a double other than zero has bits other than those of zero. -/
theorem Dyadic.Normal.nearestBits_pos {d : Dyadic} (hd : d.Normal) (h : 0 < d.significand) :
    0 < nearestBits d.magnitude := by
  have hpower : (2 : ℚ) ^ minExponent ≤ 2 ^ d.exponent := zpow_le_zpow_right₀ one_le_two hd.least
  have hcast : (1 : ℚ) ≤ d.significand := by exact_mod_cast h
  have hpos : (0 : ℚ) < 2 ^ d.exponent := by positivity
  apply Number.nearestBits_pos d.den_magnitude_pos
  rw [d.value_magnitude]
  nlinarith

end Units

section Naturals

theorem nearestBits_ofNat_lt {n : Nat} (hn : n < 2 ^ 54) :
    nearestBits (.ofNat n) < infinityBits := by
  rw [nearestBits_lt_iff Nat.one_pos, Ratio.value_ofNat, Nat.cast_lt]
  exact hn.trans_le two_pow_le_overflowBound

/-- A natural that fits is exact. -/
theorem value_of_nearestBits_ofNat {n : Nat} (hpos : 0 < n) (hn : n < 2 ^ 53) {d : Dyadic}
    (hd : d.Normal) (h : nearestBits d.magnitude = nearestBits (.ofNat n)) :
    d.magnitude.value = n := by
  let e : Dyadic := ⟨false, n <<< (52 - n.log2), n.log2 - 52⟩
  have hlog : n.log2 < 53 := (Nat.log2_lt hpos.ne').mpr hn
  have hshift : (n <<< (52 - n.log2)).log2 = 52 := by
    rw [log2_shiftLeft hpos]
    omega
  have hne : n <<< (52 - n.log2) ≠ 0 := by
    intro hzero
    rw [hzero] at hshift
    cases hshift
  have hnormal : e.Normal := by
    refine ⟨?_, ?_, .inl ?_⟩
    · exact (Nat.log2_lt hne).mp (hshift.trans_lt (by decide : 52 < 53))
    · change minExponent ≤ (n.log2 : Int) - 52
      unfold minExponent
      omega
    · exact (Nat.le_log2 hne).mp hshift.ge
  have hvalue : e.magnitude.value = n := by
    have hcast := cast_shiftLeft_mul (m := n) (k := 52 - n.log2) (e := 0) (f := n.log2 - 52)
      (by omega)
    rw [Dyadic.value_magnitude]
    simpa using hcast
  have hsame : nearestBits (.ofNat n) = nearestBits e.magnitude :=
    nearestBits_congr Nat.one_pos e.den_magnitude_pos ((Ratio.value_ofNat n).trans hvalue.symm)
  have hfinite := nearestBits_ofNat_lt (hn.trans (by decide))
  rw [hd.value_eq hnormal (h.trans hsame) (h.trans_lt hfinite), hvalue]

/-- As a double a natural below the bound is less than twice of it, or twice of what fits. -/
theorem exists_decode_ofNat {n : Nat} (hpos : 0 < n) (hn : n < 2 ^ 54 - 1) :
    ∃ d, decode (Float.ofNat n) = .finite d ∧ d.negative = false ∧ 0 < d.significand ∧
      d.magnitude.value < 2 * (min n (2 ^ 53) : Nat) := by
  obtain ⟨d, hd, hnegative, hnormal, hbits⟩ := exists_decode_ofBits
    (nearestBits_ofNat_lt (hn.trans (by decide)))
  have hdecode : decode (Float.ofNat n) = .finite d :=
    (congrArg decode (ofNat_eq_ofRatio n)).trans hd
  rcases Nat.lt_or_ge n (2 ^ 53) with hlt | hge
  · have hvalue : d.magnitude.value = n := value_of_nearestBits_ofNat hpos hlt hnormal hbits
    have hcast : (0 : ℚ) < n := by exact_mod_cast hpos
    have hsignificand : d.significand ≠ 0 := by
      intro hzero
      rw [Dyadic.value_magnitude, hzero, Nat.cast_zero, zero_mul] at hvalue
      exact hcast.ne hvalue
    refine ⟨d, hdecode, hnegative, Nat.pos_of_ne_zero hsignificand, ?_⟩
    rw [hvalue, min_eq_left hlt.le]
    linarith
  · have hsignificand : d.significand ≠ 0 := by
      intro hzero
      have hnum : d.magnitude.num = 0 := by
        simp [Dyadic.magnitude, Ratio.scale, Ratio.ofNat, hzero]
      rw [nearestBits, if_pos hnum] at hbits
      have hmono : nearestBits (.ofNat (2 ^ 53)) ≤ nearestBits (.ofNat n) :=
        nearestBits_mono Nat.one_pos Nat.one_pos
          (by rw [Ratio.value_ofNat, Ratio.value_ofNat]; exact_mod_cast hge)
      rw [← hbits] at hmono
      exact absurd hmono (by decide)
    refine ⟨d, hdecode, hnegative, Nat.pos_of_ne_zero hsignificand, ?_⟩
    -- The last natural before the bound is a double, and the bound itself is a larger one.
    rw [min_eq_right hge]
    by_contra hlarge
    have hlower : nearestBits (.ofNat (2 ^ 54)) ≤ nearestBits d.magnitude := by
      apply nearestBits_mono Nat.one_pos d.den_magnitude_pos
      rw [Ratio.value_ofNat]
      refine le_trans ?_ (not_lt.mp hlarge)
      norm_num
    have hupper : nearestBits (.ofNat n) ≤ nearestBits (.ofNat (2 ^ 54 - 2)) := by
      apply nearestBits_mono Nat.one_pos Nat.one_pos
      rw [Ratio.value_ofNat, Ratio.value_ofNat]
      exact_mod_cast (by omega : n ≤ 2 ^ 54 - 2)
    have horder : nearestBits (.ofNat (2 ^ 54 - 2)) < nearestBits (.ofNat (2 ^ 54)) := by
      decide
    omega

end Naturals

/-- A double at or above the `k`-th positive one, be it infinite. -/
def IsAtLeast (k : Nat) (x : Float) : Prop :=
  ∃ bits, k ≤ bits ∧ bits ≤ infinityBits ∧ x = ofBits false bits

namespace IsAtLeast

variable {j k : Nat} {x y : Float}

theorem mono (h : IsAtLeast k x) (hjk : j ≤ k) : IsAtLeast j x := by
  obtain ⟨bits, hk, hbits, rfl⟩ := h
  exact ⟨bits, hjk.trans hk, hbits, rfl⟩

theorem ofRatio {r : Ratio} (h : k ≤ nearestBits r) : IsAtLeast k (ofRatio false r) :=
  ⟨_, h, nearestBits_le r, rfl⟩

theorem infinity (h : k ≤ infinityBits) : IsAtLeast k (infinity false) :=
  ⟨infinityBits, h, le_rfl, rfl⟩

theorem toDouble (x : NonNegative) : IsAtLeast 0 x.toDouble :=
  ⟨x.bits, Nat.zero_le _, x.le_infinity, rfl⟩

/-- Such a double is infinite or has a value that is no smaller. -/
theorem cases (h : IsAtLeast k x) (hk : k ≤ 2 ^ 53) :
    x = Number.infinity false ∨
      ∃ d, decode x = .finite d ∧ d.negative = false ∧ (units k).value ≤ d.magnitude.value := by
  obtain ⟨bits, hle, hbits, rfl⟩ := h
  rcases hbits.lt_or_eq with hlt | rfl
  · obtain ⟨d, hd, hnegative, -, -⟩ := exists_decode_ofBits hlt
    have hvalue := min_units_le_value ((decode_ofBits false hbits).symm.trans hd)
      (hlt.trans (by decide))
    refine .inr ⟨d, hd, hnegative, le_trans ?_ hvalue⟩
    rw [value_units, value_units]
    have hcast : (k : ℚ) ≤ ((min (signedBits false bits) (2 ^ 53) : Nat) : ℚ) := by
      exact_mod_cast le_min hle hk
    gcongr
  · exact .inl rfl

theorem isNaN (h : IsAtLeast k x) : x.isNaN = false := by
  obtain ⟨bits, -, hbits, rfl⟩ := h
  exact isNaN_ofBits hbits

theorem unpack_infinity :
    (Number.infinity false).toModel.unpack = .infinity .positive := rfl

theorem infinity_add (hy : IsAtLeast k y) :
    Number.infinity false + y = Number.infinity false := by
  obtain rfl | ⟨d, hd, hnegative, -⟩ := (hy.mono (Nat.zero_le k)).cases (Nat.zero_le _)
  · rfl
  · rw [add_unpack, unpack_infinity]
    obtain ⟨-, hu⟩ | ⟨hm, hu⟩ := unpack_of_decode hd hnegative
    · rw [hu]
      rfl
    · rw [hu]
      rfl

theorem add_infinity (hx : IsAtLeast k x) :
    x + Number.infinity false = Number.infinity false := by
  obtain rfl | ⟨d, hd, hnegative, -⟩ := (hx.mono (Nat.zero_le k)).cases (Nat.zero_le _)
  · rfl
  · rw [add_unpack, unpack_infinity]
    obtain ⟨-, hu⟩ | ⟨hm, hu⟩ := unpack_of_decode hd hnegative
    · rw [hu]
      rfl
    · rw [hu]
      rfl

/-- Lower bounds add up, as far as every bound is a double. -/
theorem add (hx : IsAtLeast j x) (hy : IsAtLeast k y) :
    IsAtLeast (min (j + k) (2 ^ 53)) (x + y) := by
  have htop : min (j + k) (2 ^ 53) ≤ infinityBits := (min_le_right ..).trans (by decide)
  obtain rfl | ⟨a, ha, hanegative, havalue⟩ :=
    (hx.mono (min_le_left j (2 ^ 53))).cases (min_le_right ..)
  · rw [hy.infinity_add]
    exact IsAtLeast.infinity htop
  obtain rfl | ⟨b, hb, hbnegative, hbvalue⟩ :=
    (hy.mono (min_le_left k (2 ^ 53))).cases (min_le_right ..)
  · rw [hx.add_infinity]
    exact IsAtLeast.infinity htop
  rw [value_units] at havalue hbvalue
  have hunit : (0 : ℚ) < 2 ^ minExponent := by positivity
  have hbound : (units (min (j + k) (2 ^ 53))).value ≤ a.magnitude.value + b.magnitude.value := by
    have hcast : ((min (j + k) (2 ^ 53) : Nat) : ℚ) ≤
        (min j (2 ^ 53) : Nat) + (min k (2 ^ 53) : Nat) := by
      exact_mod_cast (by omega : min (j + k) (2 ^ 53) ≤ min j (2 ^ 53) + min k (2 ^ 53))
    rw [value_units]
    nlinarith
  have hsum : 0 ≤ a.magnitude.value + b.magnitude.value := by
    refine le_trans ?_ hbound
    rw [value_units]
    positivity
  obtain ⟨r, hden, hvalue⟩ := Ratio.exists_value_eq hsum
  rw [add_eq_ofRatio ha hb hanegative hbnegative hden hvalue]
  apply IsAtLeast.ofRatio
  have hmono := nearestBits_mono (den_units_pos _) hden (hbound.trans_eq hvalue.symm)
  rwa [nearestBits_units (min_le_right ..)] at hmono

theorem foldl {xs : List Float} (hx : IsAtLeast k x) (hxs : ∀ y ∈ xs, IsAtLeast j y) :
    IsAtLeast (min (k + j * xs.length) (2 ^ 53)) (xs.foldl (· + ·) x) := by
  induction xs generalizing k x with
  | nil => exact hx.mono (min_le_left ..)
  | cons y ys ih =>
    have hstep := hx.add (hxs y List.mem_cons_self)
    have hrest := ih hstep fun z hz => hxs z (List.mem_cons_of_mem _ hz)
    refine hrest.mono ?_
    rw [List.length_cons, Nat.mul_succ]
    omega

/-- Infinity stays infinite when it is divided by a positive double. -/
theorem infinity_div {d : Dyadic} (hy : decode y = .finite d) (hnegative : d.negative = false)
    (hpos : 0 < d.significand) : Number.infinity false / y = Number.infinity false := by
  obtain ⟨hzero, -⟩ | ⟨hm, hu⟩ := unpack_of_decode hy hnegative
  · exact absurd hzero hpos.ne'
  · rw [div_unpack, unpack_infinity, hu]
    rfl

/-- A sum of so many positive doubles, as far as its lower bound grows, leaves a positive mean. With
one more the divisor is rounded up to twice the bound, and the mean may be rounded to zero. -/
theorem div_ofNat {n : Nat} (hx : IsAtLeast (min n (2 ^ 53)) x) (hpos : 0 < n)
    (hn : n < 2 ^ 54 - 1) : IsAtLeast 1 (x / Float.ofNat n) := by
  obtain ⟨d, hd, hnegative, hsignificand, hvalue⟩ := exists_decode_ofNat hpos hn
  obtain rfl | ⟨a, ha, hanegative, havalue⟩ := hx.cases (min_le_right ..)
  · rw [infinity_div hd hnegative hsignificand]
    exact IsAtLeast.infinity (by decide)
  have hdpos : 0 < d.magnitude.value := by
    rw [Dyadic.value_magnitude]
    positivity
  have hunit : (0 : ℚ) < 2 ^ minExponent := by positivity
  have hapos : 0 < a.magnitude.value := by
    refine lt_of_lt_of_le ?_ havalue
    rw [value_units]
    have hmin : 0 < min n (2 ^ 53) := lt_min hpos (by decide)
    positivity
  obtain ⟨r, hden, hquotient⟩ := Ratio.exists_value_eq (div_pos hapos hdpos).le
  rw [div_eq_ofRatio ha hd hanegative hnegative hsignificand hden hquotient]
  apply IsAtLeast.ofRatio
  apply nearestBits_pos hden
  rw [hquotient, ← mul_div_assoc, lt_div_iff₀ hdpos]
  rw [value_units] at havalue
  nlinarith

end IsAtLeast

section Signs

variable {k : Nat} {x y : Float}

theorem rank_zero : rank 0 = toLex (0, toLex (0, 0)) := rfl

theorem isNaN_zero : (0 : Float).isNaN = false := by decide

theorem isAtLeast_zero : IsAtLeast 0 0 := ⟨0, le_rfl, Nat.zero_le _, rfl⟩

theorem eq_infinity_of_unpack {s : Sign} (h : x.toModel.unpack = .infinity s) :
    x = infinity (s == .negative) := by
  apply eq_infinity_of_decode
  rw [decode_eq, h]
  rfl

theorem IsAtLeast.pos (h : IsAtLeast 1 x) : 0 < x := by
  obtain rfl | ⟨d, hd, hnegative, hvalue⟩ := h.cases (by decide)
  · decide
  rw [value_units] at hvalue
  rw [zero_lt_iff_toRat hd, Dyadic.toRat_of_nonneg hnegative]
  exact lt_of_lt_of_le (by positivity) hvalue

theorem IsAtLeast.nonneg (h : IsAtLeast k x) : 0 ≤ x := by
  obtain rfl | ⟨d, hd, hnegative, -⟩ := (h.mono (Nat.zero_le k)).cases (Nat.zero_le _)
  · decide
  rw [zero_le_iff_toRat hd, Dyadic.toRat_of_nonneg hnegative]
  exact d.value_magnitude_nonneg

/-- Zero adds nothing: there is no negative zero that it would turn into itself. -/
theorem IsAtLeast.add_zero (h : IsAtLeast 0 x) : x + 0 = x := by
  obtain rfl | ⟨d, hd, hnegative, -⟩ := h.cases (Nat.zero_le _)
  · exact isAtLeast_zero.infinity_add
  · have hvalue : d.magnitude.value = d.magnitude.value +
        (Dyadic.mk false 0 minExponent).magnitude.value := by
      rw [Dyadic.value_magnitude ⟨false, 0, minExponent⟩, Nat.cast_zero, zero_mul, Rat.add_zero]
    rw [add_eq_ofRatio hd decode_zero hnegative rfl d.den_magnitude_pos hvalue]
    have hown := ofRatio_magnitude hd
    rwa [hnegative] at hown

/-- Infinity has a place of its own. -/
theorem rank_ne_rank_infinity (d : Dyadic) : d.rank ≠ rank (infinity false) := by
  have hinfinity : rank (infinity false) = toLex (2, toLex (0, 0)) := rfl
  rw [hinfinity]
  obtain ⟨-, h⟩ | ⟨-, -, h⟩ | ⟨-, -, h⟩ := d.rank_cases <;> simp [h]

/-- Equal doubles that are not below zero are the same: there is no negative zero among them. -/
theorem IsAtLeast.eq_of_beq (hx : IsAtLeast 0 x) (hy : IsAtLeast 0 y) (h : (x == y) = true) :
    x = y := by
  have hrank : rank x = rank y := (beq_iff_rank hx.isNaN hy.isNaN).mp h
  obtain rfl | ⟨a, ha, hanegative, -⟩ := hx.cases (Nat.zero_le _)
  · obtain rfl | ⟨b, hb, -, -⟩ := hy.cases (Nat.zero_le _)
    · rfl
    · rw [rank_of_decode hb] at hrank
      exact absurd hrank.symm (rank_ne_rank_infinity b)
  · obtain rfl | ⟨b, hb, hbnegative, -⟩ := hy.cases (Nat.zero_le _)
    · rw [rank_of_decode ha] at hrank
      exact absurd hrank (rank_ne_rank_infinity a)
    · rw [rank_of_decode ha, rank_of_decode hb] at hrank
      have hvalue := Dyadic.toRat_congr hrank
      rw [Dyadic.toRat_of_nonneg hanegative, Dyadic.toRat_of_nonneg hbnegative] at hvalue
      rw [← ofRatio_magnitude ha, ← ofRatio_magnitude hb, hanegative, hbnegative]
      exact ofRatio_congr a.den_magnitude_pos b.den_magnitude_pos hvalue false

/-- A number that is neither zero nor below it is one of the positive doubles. -/
theorem isAtLeast_one (hx : x.isNaN = false) (hzero : (x == 0) = false) (hneg : ¬ x < 0) :
    IsAtLeast 1 x := by
  have hrank : rank 0 < rank x := by
    rw [lt_iff_rank hx isNaN_zero] at hneg
    rw [← Bool.not_eq_true, beq_iff_rank hx isNaN_zero] at hzero
    exact lt_of_le_of_ne (not_lt.mp hneg) (Ne.symm hzero)
  rw [rank_zero] at hrank
  unfold rank at hrank
  have hdecode := decode_eq x
  cases hu : x.toModel.unpack with
  | notANumber =>
    change x.toModel.unpack.isNaN = false at hx
    rw [hu] at hx
    cases hx
  | infinity s =>
    rw [hu] at hrank
    cases s with
    | negative => exact absurd hrank (by decide)
    | positive =>
      rw [eq_infinity_of_unpack hu]
      exact .infinity (by decide)
  | zero s =>
    rw [hu] at hrank
    exact absurd hrank (lt_irrefl _)
  | finite s m e hm =>
    rw [hu] at hrank hdecode
    cases s with
    | negative =>
      have hbelow : Rank.ofUnpacked (.finite .negative m e hm) < toLex (0, toLex (0, 0)) :=
        Prod.Lex.left _ _ (by decide)
      exact absurd hrank hbelow.not_gt
    | positive =>
      have hdecode : decode x = .finite ⟨false, m, e⟩ := hdecode
      have hown := ofRatio_magnitude hdecode
      rw [← hown]
      apply IsAtLeast.ofRatio
      exact (normal_of_decode hdecode).nearestBits_pos hm

end Signs

section NotANumber

variable {x y : Float}

theorem isNaN_normalize (m e : ℤ) (s : Sign) :
    (UnpackedFloat.normalize Format.binary64 m e s).isNaN = false := by
  have hround (t : Sign) (n : Nat) : (UnpackedFloat.round Format.binary64 t n e).isNaN = false := by
    unfold UnpackedFloat.round UnpackedFloat.roundWithAccuracy
    dsimp only
    split <;> rfl
  unfold UnpackedFloat.normalize
  split
  · exact hround ..
  · rfl
  · exact hround ..

theorem isNaN_add_left (hx : x.isNaN = true) (y : Float) : (x + y).isNaN = true := by
  change x.toModel.unpack.isNaN = true at hx
  have hsum : (x + y).isNaN = (UnpackedFloat.add Format.binary64 x.toModel.unpack
    y.toModel.unpack).isNaN := isNaN_unpack_pack _
  rw [hsum]
  cases hu : x.toModel.unpack with
  | notANumber => rfl
  | _ => rw [hu] at hx; cases hx

theorem isNaN_add_right (x : Float) (hy : y.isNaN = true) : (x + y).isNaN = true := by
  change y.toModel.unpack.isNaN = true at hy
  have hsum : (x + y).isNaN = (UnpackedFloat.add Format.binary64 x.toModel.unpack
    y.toModel.unpack).isNaN := isNaN_unpack_pack _
  rw [hsum]
  cases hu : y.toModel.unpack with
  | notANumber => cases x.toModel.unpack <;> rfl
  | _ => rw [hu] at hy; cases hy

/-- A difference of numbers is a number unless both are the same infinity. -/
theorem isNaN_sub_iff (hx : x.isNaN = false) (hy : y.isNaN = false) :
    (x - y).isNaN = true ↔ ∃ negative, x = infinity negative ∧ y = infinity negative := by
  have hdifference : (x - y).isNaN = (UnpackedFloat.sub Format.binary64 x.toModel.unpack
    y.toModel.unpack).isNaN := isNaN_unpack_pack _
  rw [hdifference]
  constructor
  · intro h
    change x.toModel.unpack.isNaN = false at hx
    change y.toModel.unpack.isNaN = false at hy
    cases hxu : x.toModel.unpack with
    | notANumber => rw [hxu] at hx; cases hx
    | infinity s =>
      rw [hxu] at h
      cases hyu : y.toModel.unpack with
      | notANumber => rw [hyu] at hy; cases hy
      | infinity t =>
        rw [hyu] at h
        have hsame : s = t := by cases s <;> cases t <;> first | rfl | cases h
        exact ⟨_, eq_infinity_of_unpack hxu, hsame ▸ eq_infinity_of_unpack hyu⟩
      | zero t => rw [hyu] at h; cases h
      | finite t n f => rw [hyu] at h; cases h
    | zero s =>
      rw [hxu] at h
      cases hyu : y.toModel.unpack with
      | notANumber => rw [hyu] at hy; cases hy
      | infinity t => rw [hyu] at h; cases h
      | zero t => rw [hyu] at h; cases s <;> cases t <;> cases h
      | finite t n f => rw [hyu] at h; cases h
    | finite s m e =>
      rw [hxu] at h
      cases hyu : y.toModel.unpack with
      | notANumber => rw [hyu] at hy; cases hy
      | infinity t => rw [hyu] at h; cases h
      | zero t => rw [hyu] at h; cases h
      | finite t n f =>
        rw [hyu] at h
        exact absurd (h.symm.trans (isNaN_normalize ..)) (by decide)
  · rintro ⟨negative, rfl, rfl⟩
    cases negative <;> decide

theorem isNaN_add_of_isFinite (hx : x.isFinite = true) (hy : y.isFinite = true) :
    (x + y).isNaN = false := by
  obtain ⟨a, ha⟩ := (isFinite_iff x).mp hx
  obtain ⟨b, hb⟩ := (isFinite_iff y).mp hy
  obtain ⟨r, hden, hvalue⟩ := Ratio.exists_value_eq (abs_nonneg (a.toRat + b.toRat))
  rw [add_eq ha hb hden hvalue]
  exact isNaN_ofRatio _ r

/-- From a finite double only what is not a number gives what is not one. -/
theorem isNaN_sub_of_isFinite (hx : x.isFinite = true) (hy : y.isNaN = false) :
    (x - y).isNaN = false := by
  obtain ⟨a, ha⟩ := (isFinite_iff x).mp hx
  rw [← Bool.not_eq_true, isNaN_sub_iff (isNaN_of_decode ha) hy]
  rintro ⟨negative, rfl, -⟩
  cases negative <;> exact absurd hx (by decide)

theorem not_isInf_of_isNaN (h : x.isNaN = true) : ¬ x.isInf = true := by
  rw [isInf_iff, (isNaN_iff x).mp h]
  exact nofun

section Hypotenuse

variable {norm : Dyadic → Dyadic → NonNegative}

theorem hypot_zero_zero : hypot norm 0 0 = 0 := by
  have hdecode : decode 0 = .finite ⟨false, 0, minExponent⟩ := by decide
  have hzero : zero false = 0 := by decide
  rw [hypot, hdecode]
  exact (if_pos ⟨rfl, rfl⟩).trans hzero

/-- All that a hypotenuse can be. -/
theorem hypot_cases (norm : Dyadic → Dyadic → NonNegative) (x y : Float) :
    (x.isInf = true ∨ y.isInf = true) ∧ hypot norm x y = infinity false ∨
    (x.isNaN = true ∧ ¬ y.isInf = true ∨ y.isNaN = true ∧ ¬ x.isInf = true) ∧
      hypot norm x y = nan ∨
    (¬ x.isNaN = true ∧ ¬ y.isNaN = true) ∧ IsAtLeast 0 (hypot norm x y) := by
  rw [isInf_iff, isInf_iff, isNaN_iff x, isNaN_iff y, hypot]
  cases decode x with
  | infinite s => exact .inl ⟨.inl ⟨s, rfl⟩, rfl⟩
  | nan =>
    cases decode y with
    | infinite s => exact .inl ⟨.inr ⟨s, rfl⟩, rfl⟩
    | nan => exact .inr (.inl ⟨.inl ⟨rfl, nofun⟩, rfl⟩)
    | finite b => exact .inr (.inl ⟨.inl ⟨rfl, nofun⟩, rfl⟩)
  | finite a =>
    cases decode y with
    | infinite s => exact .inl ⟨.inr ⟨s, rfl⟩, rfl⟩
    | nan => exact .inr (.inl ⟨.inr ⟨rfl, nofun⟩, rfl⟩)
    | finite b =>
      refine .inr (.inr ⟨⟨nofun, nofun⟩, ?_⟩)
      dsimp only
      split
      · exact ⟨0, le_rfl, Nat.zero_le _, rfl⟩
      · exact .toDouble (norm a b)

/-- One leg that is not a number spoils the hypotenuse unless the other is infinite. -/
theorem isNaN_hypot_iff : (hypot norm x y).isNaN = true ↔
    x.isNaN = true ∧ ¬ y.isInf = true ∨ y.isNaN = true ∧ ¬ x.isInf = true := by
  obtain ⟨hinf, h⟩ | ⟨hnan, h⟩ | ⟨⟨hx, hy⟩, h⟩ := hypot_cases norm x y
  · have hnumber : ¬ (infinity false).isNaN = true := by decide
    rw [h]
    refine iff_of_false hnumber ?_
    rintro (⟨hnan, hother⟩ | ⟨hnan, hother⟩)
    · exact hinf.elim (not_isInf_of_isNaN hnan) hother
    · exact hinf.elim hother (not_isInf_of_isNaN hnan)
  · have hisnan : nan.isNaN = true := by decide
    rw [h]
    exact iff_of_true hisnan hnan
  · rw [h.isNaN]
    exact iff_of_false nofun (not_or.mpr ⟨fun hnan => hx hnan.1, fun hnan => hy hnan.1⟩)

/-- A hypotenuse is not below zero. -/
theorem isAtLeast_hypot (h : (hypot norm x y).isNaN = false) : IsAtLeast 0 (hypot norm x y) := by
  obtain ⟨-, heq⟩ | ⟨-, heq⟩ | ⟨-, hle⟩ := hypot_cases norm x y
  · rw [heq]
    exact .infinity (Nat.zero_le _)
  · have hnan : ¬ nan.isNaN = false := by decide
    rw [heq] at h
    exact absurd h hnan
  · exact hle

end Hypotenuse

/-- A sum of what is not below zero is a number exactly if all of it is. -/
theorem isNaN_foldl_iff {xs : List Float} (hx : x.isNaN = false → IsAtLeast 0 x)
    (hxs : ∀ y ∈ xs, y.isNaN = false → IsAtLeast 0 y) :
    (xs.foldl (· + ·) x).isNaN = true ↔ x.isNaN = true ∨ ∃ y ∈ xs, y.isNaN = true := by
  induction xs generalizing x with
  | nil => simp
  | cons y ys ih =>
    have hsum : (x + y).isNaN = true ↔ x.isNaN = true ∨ y.isNaN = true := by
      constructor
      · intro h
        by_contra hboth
        obtain ⟨hxn, hyn⟩ := not_or.mp hboth
        have hadd := (hx (Bool.eq_false_iff.mpr hxn)).add
          (hxs y List.mem_cons_self (Bool.eq_false_iff.mpr hyn))
        exact absurd (h.symm.trans hadd.isNaN) (by decide)
      · rintro (h | h)
        · exact isNaN_add_left h y
        · exact isNaN_add_right x h
    have hstep : (x + y).isNaN = false → IsAtLeast 0 (x + y) := by
      intro h
      obtain ⟨hxn, hyn⟩ := not_or.mp (mt hsum.mpr (Bool.eq_false_iff.mp h))
      exact (hx (Bool.eq_false_iff.mpr hxn)).add
        (hxs y List.mem_cons_self (Bool.eq_false_iff.mpr hyn))
    rw [List.foldl_cons, ih hstep fun z hz => hxs z (List.mem_cons_of_mem _ hz), hsum]
    simp only [List.mem_cons, exists_eq_or_imp, or_assoc]

end NotANumber

end Waterjet.Number
