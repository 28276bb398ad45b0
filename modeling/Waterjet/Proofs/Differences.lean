import Waterjet.Proofs.Durations
import Waterjet.Proofs.Nearest

/-! Differences of times, as they are written. Doubles lie on the lattice of the least of them, so
two that differ have a difference that is not rounded to zero, and its sign is that of their order.
The digits behind the sign are those of its magnitude. Only a zero below zero, less one that is not,
has two signs. -/
namespace Waterjet
open Number

namespace Number

section Places

/-- An unsigned number with a fixed number of digits behind the point and some before it. -/
structure FixedPoint (places : ℕ) where
  whole : List Char
  fraction : List Char
  digit : ∀ c ∈ whole ++ fraction, c.isDigit = true
  whole_ne_nil : whole ≠ []
  length_fraction : fraction.length = places

namespace FixedPoint

variable {places : ℕ}

def chars (f : FixedPoint places) : List Char := f.whole ++ '.' :: f.fraction

/-- The number of units of the last place. -/
def units (f : FixedPoint places) : ℕ := digitsValue (f.whole ++ f.fraction)

def ofUnits (places n : ℕ) : FixedPoint places where
  whole := (padded (places + 1) n).take ((padded (places + 1) n).length - places)
  fraction := (padded (places + 1) n).drop ((padded (places + 1) n).length - places)
  digit := by
    rw [List.take_append_drop]
    exact fun _ => isDigit_padded
  whole_ne_nil := by
    have hlength := le_length_padded (places + 1) n
    apply List.ne_nil_of_length_pos
    rw [List.length_take]
    omega
  length_fraction := by
    have hlength := le_length_padded (places + 1) n
    rw [List.length_drop]
    omega

theorem units_ofUnits (places n : ℕ) : (ofUnits places n).units = n := by
  rw [units, ofUnits, List.take_append_drop, digitsValue_padded]

end FixedPoint

/-- The integer is one of those nearest to the number, and of two the even one. -/
def RoundsHalfEven (n : ℕ) (q : ℚ) : Prop :=
  |(n : ℚ) - q| ≤ 1 / 2 ∧ (|(n : ℚ) - q| = 1 / 2 → n % 2 = 0)

/-- The units of the last place in a finite double. -/
def Dyadic.fixedUnits (d : Dyadic) (places : ℕ) : ℕ := (d.magnitude.scale 10 places).round

theorem fixed_of_decode {x : Float} {d : Dyadic} (h : decode x = .finite d) (places : ℕ) :
    fixed places x = signed d.negative (FixedPoint.ofUnits places (d.fixedUnits places)).chars := by
  unfold fixed
  rw [h]
  rfl

theorem Dyadic.fixedUnits_roundsHalfEven (d : Dyadic) (places : ℕ) :
    RoundsHalfEven (d.fixedUnits places) (10 ^ places * |d.toRat|) := by
  have hvalue : (d.magnitude.scale 10 places).value = 10 ^ places * |d.toRat| := by
    rw [Ratio.value_scale (by decide), d.abs_toRat, zpow_natCast, Nat.cast_ofNat, mul_comm]
  rw [← hvalue]
  exact Ratio.round_error (Ratio.den_scale_pos (by decide) _ d.den_magnitude_pos)

theorem Dyadic.fixedUnits_congr {d e : Dyadic} (h : d.magnitude.value = e.magnitude.value)
    (places : ℕ) : d.fixedUnits places = e.fixedUnits places := by
  apply Ratio.round_congr (Ratio.den_scale_pos (by decide) _ d.den_magnitude_pos)
    (Ratio.den_scale_pos (by decide) _ e.den_magnitude_pos)
  rw [Ratio.value_scale (by decide), Ratio.value_scale (by decide), h]

/-- What is rounded has the digits of its magnitude, whatever its sign. -/
theorem exists_fixed_ofRatio {r : Ratio} (h : nearestBits r < infinityBits) (places : ℕ) :
    ∃ amount : FixedPoint places, ∀ negative,
      fixed places (ofRatio negative r) = signed negative amount.chars ∧
      ∃ d, decode (ofRatio negative r) = .finite d ∧
        RoundsHalfEven amount.units (10 ^ places * |d.toRat|) := by
  obtain ⟨e, -, -, henormal, hebits⟩ := exists_decode_signed false h
  refine ⟨.ofUnits places (e.fixedUnits places), fun negative => ?_⟩
  obtain ⟨d, hd, hnegative, hdnormal, hdbits⟩ := exists_decode_signed negative h
  have hvalue : d.magnitude.value = e.magnitude.value :=
    hdnormal.value_eq henormal (hdbits.trans hebits.symm) (hdbits.trans_lt h)
  have hfixed := fixed_of_decode hd places
  have hunits := d.fixedUnits_roundsHalfEven places
  rw [Dyadic.fixedUnits_congr hvalue] at hfixed hunits
  rw [hnegative] at hfixed
  refine ⟨hfixed, d, hd, ?_⟩
  rw [FixedPoint.units_ofUnits]
  exact hunits

end Places

section Lattice

variable {a b : Dyadic}

/-- A finite double is a multiple of the least positive one. -/
theorem Dyadic.exists_toRat_eq (h : minExponent ≤ a.exponent) :
    ∃ k : ℤ, a.toRat = k * (2 : ℚ) ^ minExponent := by
  have hmagnitude : a.magnitude.value =
      ((a.significand * 2 ^ (a.exponent - minExponent).toNat : ℕ) : ℤ) * (2 : ℚ) ^ minExponent := by
    have hexponent : a.exponent = ((a.exponent - minExponent).toNat : ℤ) + minExponent := by omega
    rw [a.value_magnitude]
    conv => lhs; rw [hexponent, zpow_add₀ two_ne_zero, zpow_natCast]
    push_cast
    ring
  unfold toRat
  rw [hmagnitude]
  split
  · exact ⟨-_, by rw [Int.cast_neg, neg_mul]⟩
  · exact ⟨_, rfl⟩

/-- Two that differ are apart by the least positive double at least. -/
theorem Dyadic.Normal.le_abs_sub (ha : a.Normal) (hb : b.Normal) (h : a.toRat ≠ b.toRat) :
    (2 : ℚ) ^ minExponent ≤ |a.toRat - b.toRat| := by
  obtain ⟨j, hj⟩ := Dyadic.exists_toRat_eq ha.least
  obtain ⟨k, hk⟩ := Dyadic.exists_toRat_eq hb.least
  have hunit : (0 : ℚ) < 2 ^ minExponent := by positivity
  have hne : j - k ≠ 0 := by
    rw [sub_ne_zero]
    rintro rfl
    exact h (hj.trans hk.symm)
  have hapart : (1 : ℚ) ≤ |((j - k : ℤ) : ℚ)| := by
    exact_mod_cast Int.one_le_abs hne
  rw [hj, hk, ← sub_mul, abs_mul, abs_of_pos hunit, ← Int.cast_sub]
  exact le_mul_of_one_le_left hunit.le hapart

end Lattice

section Subtraction

open Float.Model Float.Model.UnpackedFloat

variable {x y : Float}

theorem isFinite_of_pack {u : UnpackedFloat}
    (h : (unpack Format.binary64 (pack Format.binary64 u)).isFinite = true) :
    u.isFinite = true := by
  cases u with
  | notANumber => exact absurd h (by decide)
  | infinity s => cases s <;> exact absurd h (by decide)
  | zero s => rfl
  | finite s m e hm => rfl

/-- A difference is finite only between finite doubles. -/
theorem isFinite_of_sub (h : (x - y).isFinite = true) : x.isFinite = true ∧ y.isFinite = true := by
  have hsub : (sub Format.binary64 x.toModel.unpack y.toModel.unpack).isFinite = true :=
    isFinite_of_pack h
  change x.toModel.unpack.isFinite = true ∧ y.toModel.unpack.isFinite = true
  cases hx : x.toModel.unpack with
  | notANumber =>
    rw [hx] at hsub
    cases hsub
  | infinity s =>
    rw [hx] at hsub
    cases hy : y.toModel.unpack with
    | infinity t =>
      rw [hy] at hsub
      cases s <;> cases t <;> cases hsub
    | _ =>
      rw [hy] at hsub
      cases hsub
  | zero s =>
    rw [hx] at hsub
    cases hy : y.toModel.unpack with
    | zero t => exact ⟨rfl, rfl⟩
    | finite t n f hn => exact ⟨rfl, rfl⟩
    | _ =>
      rw [hy] at hsub
      cases hsub
  | finite s m e hm =>
    rw [hx] at hsub
    cases hy : y.toModel.unpack with
    | zero t => exact ⟨rfl, rfl⟩
    | finite t n f hn => exact ⟨rfl, rfl⟩
    | _ =>
      rw [hy] at hsub
      cases hsub

end Subtraction

section Signs

variable {x y : Float} {a b : Dyadic} {r : Ratio}

theorem eq_zero_of_decode (hx : decode x = .finite a) (h : a.significand = 0) :
    x = zero a.negative := by
  rw [← ofRatio_magnitude hx, ofRatio, Dyadic.nearestBits_of_zero h]
  rfl

theorem nearestBits_lt_of_isFinite {negative : Bool} (h : (ofRatio negative r).isFinite = true) :
    nearestBits r < infinityBits := by
  apply (nearestBits_le r).lt_of_ne
  intro htop
  rw [ofRatio, htop] at h
  cases negative <;> exact absurd h (by decide)

/-- What is rounded to a zero is at least zero, whatever its sign. -/
theorem zero_le_ofRatio_iff (negative : Bool) (h : nearestBits r < infinityBits) :
    0 ≤ ofRatio negative r ↔ negative = false ∨ nearestBits r = 0 := by
  obtain ⟨d, hd, hnegative, hnormal, hbits⟩ := exists_decode_signed negative h
  rw [ofRatio, zero_le_iff_toRat hd, ← hbits, ← not_lt]
  rcases Nat.eq_zero_or_pos d.significand with hzero | hpos
  · rw [Dyadic.toRat_eq_zero hzero]
    exact iff_of_true (lt_irrefl 0) (.inr (Dyadic.nearestBits_of_zero hzero))
  · rw [Dyadic.toRat_lt_zero hpos, hnegative, Bool.not_eq_true,
      or_iff_left (hnormal.nearestBits_pos hpos).ne']

/-- A difference is negative from the lesser to the greater. One of equals is a zero, which is
negative only if the first of them is and the second is not. -/
theorem Dyadic.sumNegative_neg (a b : Dyadic) : a.sumNegative b.neg = true ↔
    a.toRat < b.toRat ∨ a.toRat = b.toRat ∧ a.negative = true ∧ b.negative = false := by
  unfold sumNegative
  rw [toRat_neg, ← sub_eq_add_neg]
  split
  · next hzero =>
    have heq : a.toRat = b.toRat := sub_eq_zero.mp hzero
    simp [heq, neg]
  · next hne =>
    have hne : a.toRat ≠ b.toRat := sub_ne_zero.mp hne
    simp [hne, sub_neg]

section Finite

variable (hx : decode x = .finite a) (hy : decode y = .finite b)
include hx hy

/-- Only zeros are equal across zero. -/
theorem eq_zeros_of_toRat_eq (h : a.toRat = b.toRat) (ha : a.negative = true)
    (hb : b.negative = false) : x = zero true ∧ y = zero false := by
  have hnonneg : 0 ≤ b.toRat := by
    rw [Dyadic.toRat_of_nonneg hb]
    exact b.value_magnitude_nonneg
  have hazero : a.significand = 0 := by
    by_contra hpos
    have hneg := (Dyadic.toRat_lt_zero (Nat.pos_of_ne_zero hpos)).mpr ha
    linarith
  have hbzero : b.significand = 0 := by
    by_contra hpos
    exact Dyadic.toRat_ne_zero (Nat.pos_of_ne_zero hpos)
      (h.symm.trans (Dyadic.toRat_eq_zero hazero))
  have hxzero := eq_zero_of_decode hx hazero
  have hyzero := eq_zero_of_decode hy hbzero
  rw [ha] at hxzero
  rw [hb] at hyzero
  exact ⟨hxzero, hyzero⟩

theorem sumNegative_neg_eq (hzeros : ¬ (x = zero true ∧ y = zero false)) :
    a.sumNegative b.neg = decide (x < y) := by
  rw [Bool.eq_iff_iff, decide_eq_true_iff, lt_iff_toRat hx hy, Dyadic.sumNegative_neg, or_iff_left]
  rintro ⟨heq, ha, hb⟩
  exact hzeros (eq_zeros_of_toRat_eq hx hy heq ha hb)

theorem lt_iff_not_lt_of_bne (hne : (x == y) = false) : y < x ↔ ¬ x < y := by
  have hvalue : a.toRat ≠ b.toRat := by
    intro heq
    have hbeq : (x == y) = true := beq_of_le_of_le (isNaN_of_decode hx) (isNaN_of_decode hy)
      ((le_iff_toRat hx hy).mpr heq.le) ((le_iff_toRat hy hx).mpr heq.ge)
    rw [hbeq] at hne
    cases hne
  rw [lt_iff_toRat hx hy, lt_iff_toRat hy hx, not_lt]
  exact (Ne.le_iff_lt hvalue.symm).symm

/-- A difference of doubles that differ is not rounded to zero. -/
theorem nearestBits_sub_pos (hden : 0 < r.den) (hvalue : r.value = |a.toRat - b.toRat|)
    (h : x < y) : 0 < nearestBits r := by
  have hunit : (0 : ℚ) < 2 ^ minExponent := by positivity
  have hapart := (normal_of_decode hx).le_abs_sub (normal_of_decode hy)
    ((lt_iff_toRat hx hy).mp h).ne
  apply nearestBits_pos hden
  linarith

end Finite

end Signs

end Number

namespace Clock

/-- Minutes behind a sign. -/
def signedMinutes (sign : String) (amount : FixedPoint 2) : String :=
  sign ++ String.ofList amount.chars ++ " min"

variable {x y : Float}

theorem difference?_double (x y : Float) : difference? (.double x) (.double y) =
    .ok ((if 0.0 ≤ x - y then "+" else "") ++ fixed 2 (x - y) ++ " min") := by
  refine bind_eq_ok_iff.mpr ⟨.double (x - y), rfl, bind_eq_ok_iff.mpr ⟨fixed 2 (x - y), rfl, ?_⟩⟩
  have hsign : (Quantity.double (x - y)).isNonnegative = decide (0.0 ≤ x - y) := rfl
  simp only [hsign, decide_eq_true_eq]
  rfl

/-- The sign of a difference below zero comes with its digits. Before that of a zero below zero
stands another one. -/
theorem difference?_of_sub {negative : Bool} {r : Ratio} {amount : FixedPoint 2}
    (h : x - y = ofRatio negative r) (hfinite : nearestBits r < infinityBits)
    (hfixed : fixed 2 (ofRatio negative r) = signed negative amount.chars) :
    difference? (.double x) (.double y) = .ok (signedMinutes
      (if negative then if nearestBits r = 0 then "+-" else "-" else "+") amount) := by
  have hsign : (0.0 ≤ x - y) ↔ negative = false ∨ nearestBits r = 0 := by
    rw [h]
    exact zero_le_ofRatio_iff negative hfinite
  rw [difference?_double, h, hfixed, ← h, signedMinutes]
  congr 2
  apply String.toList_injective
  cases negative <;> by_cases hzero : nearestBits r = 0 <;> simp [hsign, hzero, signed]

/-- But for a zero below zero, less the other one, the sign is that of the order of the times. -/
theorem difference?_of_order {a b : Number.Dyadic} {r : Ratio} {amount : FixedPoint 2}
    (hx : decode x = .finite a) (hy : decode y = .finite b) (hden : 0 < r.den)
    (hvalue : r.value = |a.toRat - b.toRat|) (hfinite : nearestBits r < infinityBits)
    (hfixed : ∀ negative, fixed 2 (ofRatio negative r) = signed negative amount.chars)
    (hzeros : ¬ (x = zero true ∧ y = zero false)) : difference? (.double x) (.double y) =
      .ok (signedMinutes (if x < y then "-" else "+") amount) := by
  have hpos (hlt : x < y) : nearestBits r ≠ 0 := (nearestBits_sub_pos hx hy hden hvalue hlt).ne'
  rw [difference?_of_sub (sub_eq hx hy hden hvalue) hfinite (hfixed _),
    sumNegative_neg_eq hx hy hzeros]
  by_cases hlt : x < y <;> simp [hlt, hpos]

/-- Differences have one sign, that of the order of the times, and the digits of their magnitude,
rounded once, halves to even. With the times exchanged nothing but the sign changes. There are two
signs before a zero below zero, which only such a zero less the other one gives. -/
theorem difference?_signed (h : (x - y).isFinite = true) :
    ∃ (d : Number.Dyadic) (amount : FixedPoint 2), decode (x - y) = .finite d ∧
      RoundsHalfEven amount.units (10 ^ 2 * |d.toRat|) ∧
      fixed 2 (x - y).abs = String.ofList amount.chars ∧
      (¬ (x = zero true ∧ y = zero false) → difference? (.double x) (.double y) =
        .ok (signedMinutes (if x < y then "-" else "+") amount)) ∧
      (x = zero true ∧ y = zero false → difference? (.double x) (.double y) =
        .ok (signedMinutes "+-" amount)) ∧
      ((x == y) = false → difference? (.double y) (.double x) =
        .ok (signedMinutes (if x < y then "+" else "-") amount)) := by
  obtain ⟨hxfinite, hyfinite⟩ := isFinite_of_sub h
  obtain ⟨a, ha⟩ := (isFinite_iff x).mp hxfinite
  obtain ⟨b, hb⟩ := (isFinite_iff y).mp hyfinite
  obtain ⟨r, hden, hvalue⟩ := Ratio.exists_value_eq (abs_nonneg (a.toRat - b.toRat))
  have hsub : x - y = ofRatio (a.sumNegative b.neg) r := sub_eq ha hb hden hvalue
  have hfinite : nearestBits r < infinityBits := nearestBits_lt_of_isFinite (hsub ▸ h)
  obtain ⟨amount, hamount⟩ := exists_fixed_ofRatio hfinite 2
  have hfixed (negative : Bool) := (hamount negative).1
  obtain ⟨d, hd, hunits⟩ := (hamount (a.sumNegative b.neg)).2
  have hdigits : fixed 2 (x - y).abs = String.ofList amount.chars := by
    rw [hsub, abs_ofRatio]
    exact hfixed false
  refine ⟨d, amount, hsub ▸ hd, hunits, hdigits,
    difference?_of_order ha hb hden hvalue hfinite hfixed, ?_, fun hne => ?_⟩
  · rintro ⟨rfl, rfl⟩
    rw [signedMinutes, ← hdigits]
    decide +kernel
  · have hzeros : ¬ (y = zero true ∧ x = zero false) := by
      rintro ⟨rfl, rfl⟩
      exact absurd hne (by decide +kernel)
    have hswap := difference?_of_order hb ha hden (hvalue.trans (abs_sub_comm _ _)) hfinite hfixed
      hzeros
    have horder : y < x ↔ ¬ x < y := lt_iff_not_lt_of_bne ha hb hne
    rw [hswap]
    by_cases hlt : x < y <;> simp [horder, hlt]

/-- Half a minute short of a reference, and half a minute beyond it. -/
theorem difference?_signed_half_minute : ((77.78 : Float) - 78.28).isFinite = true ∧
    difference? (.double 77.78) (.double 78.28) = .ok "-0.50 min" ∧
    difference? (.double 78.28) (.double 77.78) = .ok "+0.50 min" := by
  have hfinite : ((77.78 : Float) - 78.28).isFinite = true := by decide +kernel
  have hlt : (77.78 : Float) < 78.28 := by decide +kernel
  obtain ⟨-, amount, -, -, hdigits, htext, -, hswap⟩ := difference?_signed hfinite
  have hamount : String.ofList amount.chars = "0.50" := hdigits.symm.trans (by decide +kernel)
  have hzeros : ¬ ((77.78 : Float) = zero true ∧ (78.28 : Float) = zero false) := fun h =>
    absurd (congrArg Float.toBits h.1) (by decide +kernel)
  have htext := htext hzeros
  have hswap := hswap (by decide +kernel)
  rw [if_pos hlt, signedMinutes, hamount] at htext hswap
  exact ⟨hfinite, htext, hswap⟩

/-- Behind the first sign of a zero below zero, less the other one, there is no amount. -/
theorem difference?_two_signs : (zero true - zero false).isFinite = true ∧
    ¬ zero true < zero false ∧
    difference? (.double (zero true)) (.double (zero false)) = .ok "+-0.00 min" ∧
    ∀ (sign : Char) (amount : FixedPoint 2),
      difference? (.double (zero true)) (.double (zero false)) ≠
        .ok (signedMinutes (String.singleton sign) amount) := by
  have htext : difference? (.double (zero true)) (.double (zero false)) = .ok "+-0.00 min" := by
    decide +kernel
  refine ⟨by decide +kernel, by decide +kernel, htext, fun sign amount h => ?_⟩
  obtain ⟨c, cs, hwhole⟩ := List.exists_cons_of_ne_nil amount.whole_ne_nil
  have hdigit : c.isDigit = true := amount.digit c (by simp [hwhole])
  have hchars : (signedMinutes (String.singleton sign) amount).toList =
      sign :: c :: (cs ++ '.' :: amount.fraction ++ " min".toList) := by
    simp [signedMinutes, FixedPoint.chars, hwhole]
  rw [← Except.ok.inj (htext.symm.trans h)] at hchars
  have hsecond : '-' = c := (List.cons.inj (List.cons.inj hchars).2).1
  rw [← hsecond] at hdigit
  exact absurd hdigit (by decide)

end Clock

end Waterjet
