import Waterjet.Proofs.Packing

/-! Finite doubles by their values, signs included. Their order is that of the values, and a sum or
a difference is the double nearest to the exact one; the sign of a zero among the results is that of
both operands, if they agree. -/
namespace Waterjet.Number
open Float.Model Float.Model.UnpackedFloat

section Values

namespace Dyadic

/-- The value with its sign. -/
def toRat (d : Dyadic) : ℚ := if d.negative then -d.magnitude.value else d.magnitude.value

/-- The same magnitude with the other sign. -/
def neg (d : Dyadic) : Dyadic := { d with negative := !d.negative }

variable {d e : Dyadic}

theorem value_magnitude_nonneg (d : Dyadic) : 0 ≤ d.magnitude.value := by
  rw [value_magnitude]
  positivity

theorem abs_toRat (d : Dyadic) : |d.toRat| = d.magnitude.value := by
  unfold toRat
  split
  · rw [abs_neg, abs_of_nonneg d.value_magnitude_nonneg]
  · rw [abs_of_nonneg d.value_magnitude_nonneg]

theorem toRat_of_nonneg (h : d.negative = false) : d.toRat = d.magnitude.value := by
  rw [toRat, if_neg (Bool.eq_false_iff.mp h)]

theorem toRat_neg (d : Dyadic) : d.neg.toRat = -d.toRat := by
  have hmagnitude : d.neg.magnitude = d.magnitude := rfl
  unfold toRat
  rw [hmagnitude]
  cases hnegative : d.negative <;> simp [neg, hnegative]

theorem toRat_unpacked (s : Sign) (m : Nat) (e : Int) :
    toRat ⟨s == .negative, m, e⟩ = (s.apply m : ℤ) * 2 ^ e := by
  cases s with
  | negative =>
    change -(magnitude ⟨true, m, e⟩).value = ((-(m : ℤ) : ℤ) : ℚ) * 2 ^ e
    rw [value_magnitude, Int.cast_neg, neg_mul]
    rfl
  | positive =>
    change (magnitude ⟨false, m, e⟩).value = ((m : ℤ) : ℚ) * 2 ^ e
    rw [value_magnitude]
    rfl

theorem toRat_eq_zero (h : d.significand = 0) : d.toRat = 0 := by
  rw [← abs_eq_zero, abs_toRat, value_magnitude, h, Nat.cast_zero, zero_mul]

theorem toRat_ne_zero (h : 0 < d.significand) : d.toRat ≠ 0 := by
  rw [← abs_pos, abs_toRat, value_magnitude]
  positivity

theorem toRat_lt_zero (h : 0 < d.significand) : d.toRat < 0 ↔ d.negative = true := by
  have hpos : 0 < d.magnitude.value := by
    rw [value_magnitude]
    positivity
  unfold toRat
  split
  · next hnegative => exact iff_of_true (by linarith) hnegative
  · next hnegative => exact iff_of_false (by linarith) hnegative

/-- The magnitudes of doubles are ordered by their exponents first. -/
theorem Normal.value_lt (hd : d.Normal) (he : e.Normal)
    (h : d.exponent < e.exponent ∨ d.exponent = e.exponent ∧ d.significand < e.significand) :
    d.magnitude.value < e.magnitude.value := by
  rw [value_magnitude, value_magnitude]
  rcases h with hlt | ⟨heq, hlt⟩
  · obtain ⟨k, hk⟩ : ∃ k : Nat, d.exponent + 1 + k = e.exponent := Int.le.dest hlt
    have hhidden : hiddenBit ≤ e.significand :=
      he.normal.resolve_right (by have := hd.least; omega)
    have hfits : d.significand < hiddenBit * 2 := by
      rw [Nat.mul_comm]
      exact hd.fits
    have hcast : (d.significand : ℚ) < (hiddenBit : ℚ) * 2 := by exact_mod_cast hfits
    calc (d.significand : ℚ) * 2 ^ d.exponent
      _ < hiddenBit * 2 * 2 ^ d.exponent := by gcongr
      _ = hiddenBit * 2 ^ (d.exponent + 1) := by
        rw [zpow_add_one₀ two_ne_zero]
        ring
      _ ≤ e.significand * 2 ^ e.exponent := by
        have hpower : (2 : ℚ) ^ (d.exponent + 1) ≤ 2 ^ e.exponent :=
          zpow_le_zpow_right₀ one_le_two (by omega)
        gcongr
  · have hcast : (d.significand : ℚ) < e.significand := by exact_mod_cast hlt
    rw [heq]
    gcongr

/-- The place of a value in the order of doubles. -/
def rank (d : Dyadic) : Rank :=
  if d.significand = 0 then toLex (0, toLex (0, 0))
  else if d.negative then toLex (-1, toLex (-d.exponent, -(d.significand : ℤ)))
  else toLex (1, toLex (d.exponent, (d.significand : ℤ)))

theorem rank_cases (d : Dyadic) :
    d.toRat = 0 ∧ d.rank = toLex (0, toLex (0, 0)) ∨
      d.toRat < 0 ∧ d.toRat = -d.magnitude.value ∧
        d.rank = toLex (-1, toLex (-d.exponent, -(d.significand : ℤ))) ∨
      0 < d.toRat ∧ d.toRat = d.magnitude.value ∧
        d.rank = toLex (1, toLex (d.exponent, (d.significand : ℤ))) := by
  unfold rank
  rcases Nat.eq_zero_or_pos d.significand with hzero | hpos
  · exact .inl ⟨toRat_eq_zero hzero, if_pos hzero⟩
  rw [if_neg hpos.ne']
  have hsign := toRat_lt_zero hpos
  cases hnegative : d.negative with
  | true =>
    have hvalue : d.toRat = -d.magnitude.value := by rw [toRat, if_pos hnegative]
    exact .inr (.inl ⟨hsign.mpr hnegative, hvalue, rfl⟩)
  | false =>
    have hvalue : d.toRat = d.magnitude.value := toRat_of_nonneg hnegative
    have hnot : ¬ d.toRat < 0 := fun h => by simp [hsign.mp h] at hnegative
    exact .inr (.inr ⟨lt_of_le_of_ne (not_lt.mp hnot) (toRat_ne_zero hpos).symm, hvalue, rfl⟩)

theorem toRat_congr (h : d.rank = e.rank) : d.toRat = e.toRat := by
  have hmagnitude (hexponent : d.exponent = e.exponent) (hm : d.significand = e.significand) :
      d.magnitude.value = e.magnitude.value := by
    rw [value_magnitude, value_magnitude, hexponent, hm]
  obtain ⟨hd0, hdrank⟩ | ⟨hd0, hdvalue, hdrank⟩ | ⟨hd0, hdvalue, hdrank⟩ := d.rank_cases <;>
    obtain ⟨he0, herank⟩ | ⟨he0, hevalue, herank⟩ | ⟨he0, hevalue, herank⟩ := e.rank_cases <;>
    simp [hdrank, herank] at h
  · rw [hd0, he0]
  · rw [hdvalue, hevalue, hmagnitude h.1 h.2]
  · rw [hdvalue, hevalue, hmagnitude h.1 h.2]

theorem Normal.toRat_lt (hd : d.Normal) (he : e.Normal) (h : d.rank < e.rank) :
    d.toRat < e.toRat := by
  obtain ⟨hd0, hdrank⟩ | ⟨hd0, hdvalue, hdrank⟩ | ⟨hd0, hdvalue, hdrank⟩ := d.rank_cases <;>
    obtain ⟨he0, herank⟩ | ⟨he0, hevalue, herank⟩ | ⟨he0, hevalue, herank⟩ := e.rank_cases <;>
    simp [hdrank, herank, Prod.Lex.toLex_lt_toLex] at h
  · exact hd0.trans_lt he0
  · exact hd0.trans_eq he0.symm
  · -- Below zero the larger magnitude comes first.
    have hmagnitude := he.value_lt hd (h.imp_right fun h => ⟨h.1.symm, h.2⟩)
    rw [hdvalue, hevalue]
    exact neg_lt_neg hmagnitude
  · exact hd0.trans he0
  · have hmagnitude := hd.value_lt he h
    rw [hdvalue, hevalue]
    exact hmagnitude

/-- The order of doubles is that of their values. -/
theorem Normal.rank_lt_iff (hd : d.Normal) (he : e.Normal) : d.rank < e.rank ↔ d.toRat < e.toRat := by
  refine ⟨hd.toRat_lt he, fun h => ?_⟩
  rcases lt_trichotomy d.rank e.rank with hlt | heq | hgt
  · exact hlt
  · exact absurd (toRat_congr heq) h.ne
  · exact absurd (he.toRat_lt hd hgt) h.not_gt

end Dyadic

section Order

theorem decode_zero : decode 0 = .finite ⟨false, 0, minExponent⟩ := by decide

variable {x y : Float} {a b : Dyadic} (hx : decode x = .finite a) (hy : decode y = .finite b)
include hx

theorem normal_of_decode : a.Normal := (of_decodeBits hx).2.1

theorem isNaN_of_decode : x.isNaN = false := by
  rw [← Bool.not_eq_true, isNaN_iff, hx]
  nofun

theorem rank_of_decode : rank x = a.rank := by
  rw [decode_eq] at hx
  unfold rank
  cases hu : x.toModel.unpack with
  | notANumber => rw [hu] at hx; cases hx
  | infinity s => rw [hu] at hx; cases hx
  | zero s =>
    rw [hu] at hx
    cases hx
    cases s <;> rfl
  | finite s m e hm =>
    rw [hu] at hx
    cases hx
    unfold Dyadic.rank
    rw [if_neg hm.ne']
    cases s <;> rfl

include hy

theorem lt_iff_toRat : x < y ↔ a.toRat < b.toRat := by
  rw [lt_iff_rank (isNaN_of_decode hx) (isNaN_of_decode hy), rank_of_decode hx, rank_of_decode hy]
  exact (normal_of_decode hx).rank_lt_iff (normal_of_decode hy)

theorem le_iff_toRat : x ≤ y ↔ a.toRat ≤ b.toRat := by
  rw [le_iff_rank (isNaN_of_decode hx) (isNaN_of_decode hy), rank_of_decode hx, rank_of_decode hy,
    ← not_lt, ← not_lt]
  exact not_congr ((normal_of_decode hy).rank_lt_iff (normal_of_decode hx))

omit hy

theorem lt_zero_iff_toRat : x < 0 ↔ a.toRat < 0 := by
  rw [lt_iff_toRat hx decode_zero, Dyadic.toRat_eq_zero (d := ⟨false, 0, minExponent⟩) rfl]

theorem zero_lt_iff_toRat : 0 < x ↔ 0 < a.toRat := by
  rw [lt_iff_toRat decode_zero hx, Dyadic.toRat_eq_zero (d := ⟨false, 0, minExponent⟩) rfl]

theorem zero_le_iff_toRat : 0 ≤ x ↔ 0 ≤ a.toRat := by
  rw [le_iff_toRat decode_zero hx, Dyadic.toRat_eq_zero (d := ⟨false, 0, minExponent⟩) rfl]

end Order

end Values

section Sums

variable {x y : Float} {a b : Dyadic} {r : Ratio}

theorem ofModel_pack {u : UnpackedFloat} {negative : Bool} {bits : Nat}
    (h : (UnpackedFloat.pack Format.binary64 u).toNat = signedBits negative bits) :
    Float.ofModel (Float.Model.pack u) = ofBits negative bits :=
  eq_ofBits h

theorem ofRatio_congr (hr : 0 < r.den) {s : Ratio} (hs : 0 < s.den) (h : r.value = s.value)
    (negative : Bool) : ofRatio negative r = ofRatio negative s := by
  rw [ofRatio, ofRatio, nearestBits_congr hr hs h]

/-- A value in normal form is packed as it is. -/
theorem pack_of_decoded {u : UnpackedFloat} (hu : Decoded.ofUnpacked u = .finite a) (ha : a.Normal)
    (hden : 0 < r.den) (h : r.value = a.magnitude.value) :
    Float.ofModel (.pack u) = ofRatio a.negative r := by
  rw [ofModel_pack (toNat_pack_of_decoded hu ha)]
  exact ofRatio_congr a.den_magnitude_pos hden h.symm _

theorem pack_zero (s : Sign) (hden : 0 < r.den) (h : r.value = 0) :
    Float.ofModel (.pack (.zero s)) = ofRatio (s == .negative) r := by
  have hnormal : Dyadic.Normal ⟨s == .negative, 0, minExponent⟩ :=
    ⟨(by decide : 0 < 2 * hiddenBit), le_rfl, .inr rfl⟩
  refine pack_of_decoded (a := ⟨s == .negative, 0, minExponent⟩) rfl hnormal hden ?_
  rw [h, Dyadic.value_magnitude, Nat.cast_zero, zero_mul]

/-- Shifting a significand to a smaller exponent keeps the value. -/
theorem cast_shiftLeft_mul {m k : Nat} {e f : Int} (h : (k : Int) = e - f) :
    ((m <<< k : Nat) : ℚ) * ((2 : Nat) : ℚ) ^ f = m * 2 ^ e := by
  have he : e = k + f := by omega
  rw [Nat.shiftLeft_eq, he, zpow_add₀ two_ne_zero, zpow_natCast]
  push_cast
  ring

theorem apply_shiftLeft_mul (s : Sign) (m : Nat) {e f : Int} (h : f ≤ e) :
    ((s.apply (m <<< (e - f).toNat : Nat) : ℤ) : ℚ) * 2 ^ f = (s.apply m : ℤ) * 2 ^ e := by
  have hshift := cast_shiftLeft_mul (m := m) (Int.toNat_of_nonneg (sub_nonneg.mpr h))
  rw [Nat.cast_ofNat] at hshift
  cases s with
  | negative =>
    change ((-((m <<< (e - f).toNat : Nat) : ℤ) : ℤ) : ℚ) * 2 ^ f = ((-(m : ℤ) : ℤ) : ℚ) * 2 ^ e
    rw [Int.cast_neg, Int.cast_neg, neg_mul, neg_mul]
    exact congrArg Neg.neg hshift
  | positive => exact hshift

/-- A signed integer times a power of two is rounded in magnitude. -/
theorem normalize_eq_ofRatio {m e : ℤ} (hden : 0 < r.den) (h : r.value = |(m : ℚ) * 2 ^ e|) :
    Float.ofModel (.pack (UnpackedFloat.normalize Format.binary64 m e .positive)) =
      ofRatio (decide (m < 0)) r := by
  have hvalue : r.value = ((Ratio.ofNat m.natAbs).scale 2 e).value := by
    have hpower : (0 : ℚ) < 2 ^ e := by positivity
    rw [h, abs_mul, abs_of_pos hpower, Ratio.value_scale (by decide), Ratio.value_ofNat,
      Nat.cast_natAbs, Int.cast_abs]
    rfl
  rw [ofRatio_congr hden (Ratio.den_scale_pos (by decide) e Nat.one_pos) hvalue]
  unfold UnpackedFloat.normalize
  rcases lt_trichotomy m 0 with hneg | rfl | hpos
  · have habs : (-m).toNat = m.natAbs := by omega
    have hm : 0 < m.natAbs := by omega
    rw [Int.compare_eq_lt.mpr hneg, decide_eq_true hneg]
    dsimp only
    rw [habs, ofModel_pack (toNat_pack_round .negative e hm)]
    rfl
  · have hnum : ((Ratio.ofNat 0).scale 2 e).num = 0 := Nat.zero_mul _
    rw [ofRatio, Int.natAbs_zero, nearestBits, if_pos hnum]
    rfl
  · have habs : m.toNat = m.natAbs := by omega
    have hm : 0 < m.natAbs := by omega
    rw [Int.compare_eq_gt.mpr hpos, decide_eq_false hpos.not_gt]
    dsimp only
    rw [habs, ofModel_pack (toNat_pack_round .positive e hm)]
    rfl

namespace Dyadic

/-- The sign of a sum. One of zero is negative only if both summands are. -/
def sumNegative (a b : Dyadic) : Bool :=
  if a.toRat + b.toRat = 0 then a.negative && b.negative else decide (a.toRat + b.toRat < 0)

theorem sumNegative_comm (a b : Dyadic) : sumNegative a b = sumNegative b a := by
  unfold sumNegative
  rw [add_comm, Bool.and_comm]

theorem sumNegative_of_zero (ha : a.significand = 0) (hb : 0 < b.significand) :
    sumNegative a b = b.negative := by
  unfold sumNegative
  rw [toRat_eq_zero ha, zero_add, if_neg (toRat_ne_zero hb), Bool.eq_iff_iff, decide_eq_true_iff]
  exact toRat_lt_zero hb

end Dyadic

theorem add_unpack (x y : Float) : x + y =
    .ofModel (.pack (UnpackedFloat.add Format.binary64 x.toModel.unpack y.toModel.unpack)) := rfl

theorem sub_unpack (x y : Float) : x - y =
    .ofModel (.pack (UnpackedFloat.sub Format.binary64 x.toModel.unpack y.toModel.unpack)) := rfl

/-- To subtract is to add with the other sign. -/
theorem sub_unpacked (u v : UnpackedFloat) :
    UnpackedFloat.sub Format.binary64 u v = UnpackedFloat.add Format.binary64 u v.neg := by
  have happly (s : Sign) (n : ℤ) : (-s).apply n = -s.apply n := by
    cases s with
    | negative => exact (neg_neg n).symm
    | positive => rfl
  cases u with
  | finite s m e hm =>
    cases v with
    | finite t n f hn =>
      unfold UnpackedFloat.sub UnpackedFloat.add UnpackedFloat.neg
      dsimp only
      rw [happly, sub_eq_add_neg]
    | _ => rfl
  | _ => cases v <;> rfl

/-- The sign of a sum of what is not zero is that of an integer which it is a multiple of. -/
theorem Dyadic.sumNegative_of_pos (ha : 0 < a.significand) (hb : 0 < b.significand) {m e : ℤ}
    (h : (m : ℚ) * 2 ^ e = a.toRat + b.toRat) : sumNegative a b = decide (m < 0) := by
  have hpower : (0 : ℚ) < 2 ^ e := by positivity
  have hnegative : a.toRat + b.toRat < 0 ↔ m < 0 := by
    rw [← h, ← Int.cast_lt_zero (R := ℚ)]
    exact ⟨fun hlt => neg_of_mul_neg_left hlt hpower.le, fun hm => mul_neg_of_neg_of_pos hm hpower⟩
  unfold sumNegative
  split
  · next hzero =>
    have hm : decide (m < 0) = false := decide_eq_false (mt hnegative.mpr hzero.not_lt)
    rw [hm, Bool.and_eq_false_iff]
    by_contra hboth
    simp only [not_or, Bool.not_eq_false] at hboth
    have := (toRat_lt_zero ha).mpr hboth.1
    have := (toRat_lt_zero hb).mpr hboth.2
    linarith
  · rw [decide_eq_decide]
    exact hnegative

theorem Dyadic.sumNegative_of_nonneg (ha : a.negative = false) (hb : b.negative = false) :
    sumNegative a b = false := by
  have hsum : 0 ≤ a.toRat + b.toRat := by
    rw [toRat_of_nonneg ha, toRat_of_nonneg hb]
    exact add_nonneg a.value_magnitude_nonneg b.value_magnitude_nonneg
  unfold sumNegative
  split
  · rw [ha, Bool.false_and]
  · exact decide_eq_false hsum.not_gt

theorem Dyadic.sumNegative_zero (m n : Bool) (e f : ℤ) :
    sumNegative ⟨m, 0, e⟩ ⟨n, 0, f⟩ = (m && n) := by
  unfold sumNegative
  rw [toRat_eq_zero rfl, toRat_eq_zero rfl, if_pos (add_zero 0)]

theorem ofUnpacked_neg {u : UnpackedFloat} (h : Decoded.ofUnpacked u = .finite a) :
    Decoded.ofUnpacked u.neg = .finite a.neg := by
  cases u with
  | notANumber => cases h
  | infinity s => cases h
  | zero s =>
    cases h
    cases s <;> rfl
  | finite s m e hm =>
    cases h
    cases s <;> rfl

theorem ofUnpacked_abs {u : UnpackedFloat} (h : Decoded.ofUnpacked u = .finite a) :
    Decoded.ofUnpacked u.abs = .finite ⟨false, a.significand, a.exponent⟩ := by
  cases u with
  | notANumber => cases h
  | infinity s => cases h
  | zero s =>
    cases h
    rfl
  | finite s m e hm =>
    cases h
    rfl

/-- Unpacked doubles are added exactly, and the sum is rounded once. -/
theorem pack_add {u v : UnpackedFloat} (hu : Decoded.ofUnpacked u = .finite a)
    (hv : Decoded.ofUnpacked v = .finite b) (ha : a.Normal) (hb : b.Normal) (hden : 0 < r.den)
    (h : r.value = |a.toRat + b.toRat|) :
    Float.ofModel (.pack (UnpackedFloat.add Format.binary64 u v)) = ofRatio (a.sumNegative b) r := by
  -- A zero leaves the other summand as it is, without rounding.
  cases u with
  | notANumber => cases hu
  | infinity s => cases hu
  | zero s =>
    cases hu
    rw [Dyadic.toRat_eq_zero rfl, zero_add] at h
    cases v with
    | notANumber => cases hv
    | infinity t => cases hv
    | zero t =>
      cases hv
      rw [Dyadic.toRat_eq_zero rfl, abs_zero] at h
      rw [Dyadic.sumNegative_zero]
      cases s <;> cases t
      · exact pack_zero .negative hden h
      · exact pack_zero .positive hden h
      · exact pack_zero .positive hden h
      · exact pack_zero .positive hden h
    | finite t n f hn =>
      cases hv
      rw [Dyadic.abs_toRat] at h
      rw [Dyadic.sumNegative_of_zero rfl hn]
      exact pack_of_decoded rfl hb hden h
  | finite s m e hm =>
    cases hu
    cases v with
    | notANumber => cases hv
    | infinity t => cases hv
    | zero t =>
      cases hv
      rw [Dyadic.toRat_eq_zero (d := ⟨t == .negative, 0, minExponent⟩) rfl, add_zero,
        Dyadic.abs_toRat] at h
      rw [Dyadic.sumNegative_comm, Dyadic.sumNegative_of_zero rfl hm]
      exact pack_of_decoded rfl ha hden h
    | finite t n f hn =>
      cases hv
      let sum := s.apply (m <<< (e - min e f).toNat : Nat) +
        t.apply (n <<< (f - min e f).toNat : Nat)
      have hsum : (sum : ℚ) * 2 ^ min e f = Dyadic.toRat ⟨s == .negative, m, e⟩ +
          Dyadic.toRat ⟨t == .negative, n, f⟩ := by
        rw [Int.cast_add, add_mul, apply_shiftLeft_mul s m (min_le_left e f),
          apply_shiftLeft_mul t n (min_le_right e f), Dyadic.toRat_unpacked, Dyadic.toRat_unpacked]
      rw [Dyadic.sumNegative_of_pos hm hn hsum]
      exact normalize_eq_ofRatio hden (hsum ▸ h)

section Finite

variable (hx : decode x = .finite a) (hy : decode y = .finite b) (hden : 0 < r.den)
include hx hy hden

/-- The sum of two finite doubles is the double nearest to the exact sum. -/
theorem add_eq (h : r.value = |a.toRat + b.toRat|) : x + y = ofRatio (a.sumNegative b) r := by
  rw [add_unpack]
  exact pack_add ((decode_eq x).symm.trans hx) ((decode_eq y).symm.trans hy) (normal_of_decode hx)
    (normal_of_decode hy) hden h

/-- The difference of two finite doubles is the double nearest to the exact difference. -/
theorem sub_eq (h : r.value = |a.toRat - b.toRat|) : x - y = ofRatio (a.sumNegative b.neg) r := by
  have hb := normal_of_decode hy
  have hneg : Decoded.ofUnpacked y.toModel.unpack.neg = .finite b.neg := by
    rw [decode_eq] at hy
    exact ofUnpacked_neg hy
  rw [sub_eq_add_neg, ← Dyadic.toRat_neg] at h
  rw [sub_unpack, sub_unpacked]
  exact pack_add ((decode_eq x).symm.trans hx) hneg (normal_of_decode hx)
    ⟨hb.fits, hb.least, hb.normal⟩ hden h

end Finite

/-- A finite double less itself is zero, and not the negative one. -/
theorem sub_self_eq_zero (hx : decode x = .finite a) : x - x = 0 := by
  have hvalue : (Ratio.ofNat 0).value = |a.toRat - a.toRat| := by
    rw [sub_self, abs_zero, Ratio.value_ofNat, Nat.cast_zero]
  have hsign : a.sumNegative a.neg = false := by
    unfold Dyadic.sumNegative
    rw [Dyadic.toRat_neg, add_neg_cancel, if_pos rfl]
    exact Bool.and_not_self a.negative
  rw [sub_eq hx hx Nat.one_pos hvalue, hsign]
  rfl

section Absolute

theorem abs_unpack (x : Float) : x.abs = .ofModel (.pack x.toModel.unpack.abs) := rfl

/-- The absolute value of a finite double has its magnitude. -/
theorem abs_eq_ofRatio (hx : decode x = .finite a) : x.abs = ofRatio false a.magnitude := by
  have hnormal := normal_of_decode hx
  have hmagnitude : a.magnitude.value = (Dyadic.mk false a.significand a.exponent).magnitude.value :=
    rfl
  rw [decode_eq] at hx
  have hpack := pack_of_decoded (ofUnpacked_abs hx) ⟨hnormal.fits, hnormal.least, hnormal.normal⟩
    a.den_magnitude_pos hmagnitude
  rw [abs_unpack]
  exact hpack

/-- So has that of what is rounded, be it infinite. -/
theorem abs_ofRatio (negative : Bool) (r : Ratio) : (ofRatio negative r).abs = ofRatio false r := by
  unfold ofRatio
  rcases (nearestBits_le r).lt_or_eq with hlt | heq
  · obtain ⟨d, hd, -, -, hbits⟩ := exists_decode_signed negative hlt
    rw [abs_eq_ofRatio hd, ofRatio, hbits]
  · rw [heq]
    cases negative <;> rfl

end Absolute

end Sums

end Waterjet.Number
