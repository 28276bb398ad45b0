import Mathlib
import Waterjet.Number.Ratio

/-! Ratios by what they are worth. However a ratio is written, it is rounded to the same integer,
a larger one to no smaller integer, and its binary exponent is the logarithm of its value. -/
namespace Waterjet.Number

namespace Ratio

/-- What a ratio is worth, however it is written. -/
def value (r : Ratio) : ℚ := r.num / r.den

section Value

variable {r s : Ratio}

theorem den_scale_pos {base : Nat} (hbase : 0 < base) (e : Int) (hr : 0 < r.den) :
    0 < (r.scale base e).den :=
  Nat.mul_pos hr (Nat.pow_pos hbase)

theorem value_scale {base : Nat} (hbase : 0 < base) (e : Int) (r : Ratio) :
    (r.scale base e).value = r.value * (base : ℚ) ^ e := by
  have hne : (base : ℚ) ≠ 0 := by positivity
  have hsplit : e = (e.toNat : Int) - ((-e).toNat : Int) := by omega
  conv => rhs; rw [hsplit, zpow_sub₀ hne, zpow_natCast, zpow_natCast]
  unfold value scale
  simp only [Nat.pow_eq, Nat.cast_mul, Nat.cast_pow]
  exact (div_mul_div_comm _ _ _ _).symm

theorem value_ofNat (n : Nat) : (ofNat n).value = n := by
  simp [value, ofNat]

/-- Every value that is not negative can be written. -/
theorem exists_value_eq {q : ℚ} (hq : 0 ≤ q) : ∃ r : Ratio, 0 < r.den ∧ r.value = q := by
  refine ⟨⟨q.num.toNat, q.den⟩, q.den_pos, ?_⟩
  have hnum : ((q.num.toNat : Nat) : ℚ) = q.num := by
    exact_mod_cast Int.toNat_of_nonneg (Rat.num_nonneg.mpr hq)
  rw [value, hnum, Rat.num_div_den]

theorem value_pos (hnum : 0 < r.num) (hden : 0 < r.den) : 0 < r.value := by
  unfold value
  positivity

theorem le_value_iff (hr : 0 < r.den) (n : Nat) : (n : ℚ) ≤ r.value ↔ n * r.den ≤ r.num := by
  have hden : (0 : ℚ) < r.den := by exact_mod_cast hr
  rw [value, le_div_iff₀ hden]
  exact_mod_cast Iff.rfl

theorem value_le_iff (hr : 0 < r.den) (n : Nat) : r.value ≤ n ↔ r.num ≤ n * r.den := by
  have hden : (0 : ℚ) < r.den := by exact_mod_cast hr
  rw [value, div_le_iff₀ hden]
  exact_mod_cast Iff.rfl

end Value

section Round

variable {r s : Ratio}

theorem round_mul (m n : Nat) {k : Nat} (hk : 0 < k) :
    (Ratio.mk (m * k) (n * k)).round = (Ratio.mk m n).round := by
  have hrest : 2 * (m % n * k) = 2 * (m % n) * k := (Nat.mul_assoc ..).symm
  unfold round
  simp only [Nat.mul_div_mul_right _ _ hk, Nat.mul_mod_mul_right, hrest, Nat.mul_lt_mul_right hk]

/-- Rounding does not see how a ratio is written. -/
theorem round_congr (hr : 0 < r.den) (hs : 0 < s.den) (h : r.value = s.value) :
    r.round = s.round := by
  have hrq : (r.den : ℚ) ≠ 0 := by positivity
  have hsq : (s.den : ℚ) ≠ 0 := by positivity
  have hcross : r.num * s.den = s.num * r.den := by
    have hq : (r.num : ℚ) * s.den = s.num * r.den := (div_eq_div_iff hrq hsq).mp h
    exact_mod_cast hq
  calc r.round = (Ratio.mk (r.num * s.den) (r.den * s.den)).round := (round_mul _ _ hs).symm
    _ = (Ratio.mk (s.num * r.den) (s.den * r.den)).round := by rw [hcross, Nat.mul_comm r.den]
    _ = s.round := round_mul _ _ hr

theorem le_round_of_le (hr : 0 < r.den) {n : Nat} (h : (n : ℚ) ≤ r.value) : n ≤ r.round := by
  have hwhole : n ≤ r.num / r.den :=
    (Nat.le_div_iff_mul_le hr).mpr ((le_value_iff hr n).mp h)
  unfold round
  dsimp only
  split
  · exact hwhole
  · split <;> omega

theorem round_le_of_le (hr : 0 < r.den) {n : Nat} (h : r.value ≤ n) : r.round ≤ n := by
  have hnum : r.num ≤ n * r.den := (value_le_iff hr n).mp h
  have hsplit : r.num / r.den * r.den + r.num % r.den = r.num := Nat.div_add_mod' ..
  have hwhole : r.num / r.den ≤ n := Nat.div_le_of_le_mul (by rwa [Nat.mul_comm])
  unfold round
  dsimp only
  rcases hwhole.lt_or_eq with hlt | heq
  · split
    · omega
    · split <;> omega
  · -- Nothing is left over at the bound itself.
    have hrest : r.num % r.den = 0 := by
      rw [heq] at hsplit
      omega
    rw [hrest, if_pos (by omega)]
    exact heq.le

theorem round_eq_of_value {n : Nat} (hr : 0 < r.den) (h : r.value = n) : r.round = n :=
  le_antisymm (round_le_of_le hr h.le) (le_round_of_le hr h.ge)

theorem round_mono (hr : 0 < r.den) (hs : 0 < s.den) (h : r.value ≤ s.value) :
    r.round ≤ s.round := by
  have hrq : (0 : ℚ) < r.den := by exact_mod_cast hr
  have hsq : (0 : ℚ) < s.den := by exact_mod_cast hs
  have hcross : r.num * s.den ≤ s.num * r.den := by
    have hq : (r.num : ℚ) * s.den ≤ s.num * r.den := (div_le_div_iff₀ hrq hsq).mp h
    exact_mod_cast hq
  rw [← round_mul r.num r.den hs, ← round_mul s.num s.den hr, Nat.mul_comm s.den]
  generalize r.num * s.den = m at *
  generalize s.num * r.den = n at *
  have hden : 0 < r.den * s.den := Nat.mul_pos hr hs
  generalize r.den * s.den = d at *
  -- Over one denominator the wholes are in order, and with equal wholes the rests are.
  have hwhole : m / d ≤ n / d := Nat.div_le_div_right hcross
  have hm : m / d * d + m % d = m := Nat.div_add_mod' m d
  have hn : n / d * d + n % d = n := Nat.div_add_mod' n d
  have hrest : m / d = n / d → m % d ≤ n % d := by
    intro heq
    rw [heq] at hm
    omega
  unfold round
  dsimp only
  generalize m / d = v at *
  generalize n / d = w at *
  rcases hwhole.lt_or_eq with hlt | rfl
  · calc (if 2 * (m % d) < d then v else if d < 2 * (m % d) then v + 1 else v + v % 2)
        ≤ v + 1 := by split <;> [omega; split <;> omega]
      _ ≤ w := hlt
      _ ≤ _ := by split <;> [omega; split <;> omega]
  · have hle := hrest rfl
    split
    · split <;> [omega; split <;> omega]
    · split
      · rw [if_neg (by omega), if_pos (by omega)]
      · rw [if_neg (by omega)]
        split <;> omega

theorem round_eq_zero (hr : 0 < r.den) (h : r.value < 1 / 2) : r.round = 0 := by
  have hden : (0 : ℚ) < r.den := by exact_mod_cast hr
  have hnum : 2 * r.num < r.den := by
    have hq : (r.num : ℚ) < 1 / 2 * r.den := (div_lt_iff₀ hden).mp h
    have hq : (2 * r.num : ℚ) < r.den := by linarith
    exact_mod_cast hq
  have hlt : r.num < r.den := by omega
  unfold round
  rw [Nat.div_eq_of_lt hlt, Nat.mod_eq_of_lt hlt]
  exact if_pos hnum

theorem round_pos (hr : 0 < r.den) (h : 1 / 2 < r.value) : 0 < r.round := by
  have hden : (0 : ℚ) < r.den := by exact_mod_cast hr
  have hnum : r.den < 2 * r.num := by
    have hq : 1 / 2 * r.den < (r.num : ℚ) := (lt_div_iff₀ hden).mp h
    have hq : (r.den : ℚ) < 2 * r.num := by linarith
    exact_mod_cast hq
  unfold round
  dsimp only
  rcases Nat.eq_zero_or_pos (r.num / r.den) with hzero | hpos
  · have hrest : r.num % r.den = r.num := Nat.mod_eq_of_lt ((Nat.div_eq_zero_iff_lt hr).mp hzero)
    rw [hrest, if_neg (by omega), if_pos hnum]
    exact Nat.succ_pos _
  · split
    · exact hpos
    · split <;> omega

/-- A value halfway below an even integer is rounded up to it. -/
theorem round_lt_iff_of_even (hr : 0 < r.den) {n : Nat} (hn : n % 2 = 0) :
    r.round < n ↔ r.value < n - 1 / 2 := by
  have hden : (0 : ℚ) < r.den := by exact_mod_cast hr
  have hvalue : r.value < n - 1 / 2 ↔ 2 * r.num + r.den < 2 * n * r.den := by
    rw [value, div_lt_iff₀ hden]
    constructor
    · intro h
      have hq : (2 * r.num + r.den : ℚ) < 2 * n * r.den := by linarith
      exact_mod_cast hq
    · intro h
      have hq : (2 * r.num + r.den : ℚ) < 2 * n * r.den := by exact_mod_cast h
      linarith
  have hsplit : r.num / r.den * r.den + r.num % r.den = r.num := Nat.div_add_mod' ..
  have hrest : r.num % r.den < r.den := Nat.mod_lt _ hr
  rw [hvalue, ← hsplit]
  unfold round
  generalize r.num / r.den = whole at *
  generalize r.num % r.den = rest at *
  dsimp only
  rcases lt_trichotomy (whole + 1) n with hlt | heq | hgt
  · have hmul : (whole + 2) * r.den ≤ n * r.den := Nat.mul_le_mul_right _ hlt
    refine iff_of_true ?_ ?_
    · split
      · omega
      · split <;> omega
    · nlinarith
  · subst heq
    have hparity : whole % 2 = 1 := by omega
    rw [hparity]
    split
    · refine iff_of_true (by omega) (by nlinarith)
    · split
      · refine iff_of_false (by omega) (by nlinarith)
      · refine iff_of_false (by omega) (by nlinarith)
  · have hmul : n * r.den ≤ whole * r.den := Nat.mul_le_mul_right _ (by omega)
    refine iff_of_false ?_ ?_
    · split
      · omega
      · split <;> omega
    · nlinarith

end Round

section Exponent

variable {r s : Ratio}

theorem two_zpow_le_value (hnum : 0 < r.num) (hden : 0 < r.den) :
    (2 : ℚ) ^ Int.log 2 r.value ≤ r.value := by
  exact_mod_cast Int.zpow_log_le_self (by decide : 1 < 2) (value_pos hnum hden)

theorem value_lt_two_zpow (r : Ratio) : r.value < (2 : ℚ) ^ (Int.log 2 r.value + 1) := by
  exact_mod_cast Int.lt_zpow_succ_log_self (by decide : 1 < 2) r.value

theorem log_value_scale (hnum : 0 < r.num) (hden : 0 < r.den) (e : Int) :
    Int.log 2 (r.scale 2 e).value = Int.log 2 r.value + e := by
  have hpos : 0 < (r.scale 2 e).value := by
    rw [value_scale (by decide)]
    exact mul_pos (value_pos hnum hden) (by positivity)
  have hvalue : (r.scale 2 e).value = r.value * (2 : ℚ) ^ e := value_scale (by decide) e r
  apply le_antisymm
  · apply Int.lt_add_one_iff.mp
    apply (Int.lt_zpow_iff_log_lt (by decide) hpos).mp
    rw [hvalue, Nat.cast_ofNat, add_right_comm, zpow_add₀ two_ne_zero]
    exact mul_lt_mul_of_pos_right (value_lt_two_zpow r) (by positivity)
  · apply (Int.zpow_le_iff_le_log (by decide) hpos).mp
    rw [hvalue, Nat.cast_ofNat, zpow_add₀ two_ne_zero]
    exact mul_le_mul_of_nonneg_right (two_zpow_le_value hnum hden) (by positivity)

/-- The whole part has the exponent of the ratio, unless it is zero. -/
theorem log_value (hden : 0 < r.den) (hwhole : 0 < r.num / r.den) :
    Int.log 2 r.value = (r.num / r.den).log2 := by
  have hnum : 0 < r.num := Nat.pos_of_ne_zero fun h => by simp [h] at hwhole
  have hpos : 0 < r.value := value_pos hnum hden
  have hlow : ((r.num / r.den : Nat) : ℚ) ≤ r.value :=
    (le_value_iff hden _).mpr (Nat.div_mul_le_self ..)
  have hhigh : r.value < 2 ^ ((r.num / r.den).log2 + 1) := by
    have hlt : r.num < 2 ^ ((r.num / r.den).log2 + 1) * r.den :=
      (Nat.div_lt_iff_lt_mul hden).mp Nat.lt_log2_self
    rw [value, div_lt_iff₀ (by exact_mod_cast hden)]
    exact_mod_cast hlt
  apply le_antisymm
  · apply Int.lt_add_one_iff.mp
    apply (Int.lt_zpow_iff_log_lt (by decide) hpos).mp
    exact_mod_cast hhigh
  · apply (Int.zpow_le_iff_le_log (by decide) hpos).mp
    refine le_trans ?_ hlow
    exact_mod_cast Nat.log2_self_le hwhole.ne'

theorem log2_sub_le_log_value (hnum : 0 < r.num) (hden : 0 < r.den) :
    (r.num.log2 : Int) - r.den.log2 - 1 ≤ Int.log 2 r.value := by
  have hq : (0 : ℚ) < r.den := by exact_mod_cast hden
  have hle : (2 : ℚ) ^ r.num.log2 ≤ r.num := by exact_mod_cast Nat.log2_self_le hnum.ne'
  have hlt : (r.den : ℚ) < 2 ^ (r.den.log2 + 1) := by exact_mod_cast Nat.lt_log2_self
  have hvalue : (2 : ℚ) ^ ((r.num.log2 : Int) - r.den.log2 - 1) ≤ r.value := by
    have hexp : (r.num.log2 : Int) - r.den.log2 - 1 =
        (r.num.log2 : Int) - ((r.den.log2 + 1 : Nat) : Int) := by
      push_cast
      ring
    rw [hexp, zpow_sub₀ two_ne_zero, zpow_natCast, zpow_natCast, value]
    gcongr
  exact (Int.zpow_le_iff_le_log (by decide) (value_pos hnum hden)).mp (by exact_mod_cast hvalue)

/-- The exponent is found from those of the two parts with one comparison. -/
theorem binaryExponent_eq (hnum : 0 < r.num) (hden : 0 < r.den) :
    r.binaryExponent = Int.log 2 r.value := by
  have hpos : 0 < r.value := value_pos hnum hden
  have hq : (0 : ℚ) < r.den := by exact_mod_cast hden
  let e : Int := (r.num.log2 : Int) - r.den.log2
  have hscaled : (r.scale 2 (-e)).den ≤ (r.scale 2 (-e)).num ↔ e ≤ Int.log 2 r.value := by
    have hle := le_value_iff (den_scale_pos (by decide) (-e) hden) (r := r.scale 2 (-e)) 1
    rw [Nat.one_mul] at hle
    rw [← hle, value_scale (by decide), Nat.cast_one, zpow_neg, Nat.cast_ofNat,
      ← div_eq_mul_inv, one_le_div (by positivity)]
    exact_mod_cast Int.zpow_le_iff_le_log (by decide) hpos
  have hupper : Int.log 2 r.value < e + 1 := by
    have hlt : (r.num : ℚ) < 2 ^ (r.num.log2 + 1) := by exact_mod_cast Nat.lt_log2_self
    have hle : (2 : ℚ) ^ r.den.log2 ≤ r.den := by exact_mod_cast Nat.log2_self_le hden.ne'
    have hvalue : r.value < (2 : ℚ) ^ (e + 1) := by
      have hexp : e + 1 = ((r.num.log2 + 1 : Nat) : Int) - (r.den.log2 : Nat) := by
        simp only [e]; push_cast; ring
      rw [hexp, zpow_sub₀ two_ne_zero, zpow_natCast, zpow_natCast, value]
      gcongr
    exact (Int.lt_zpow_iff_log_lt (by decide) hpos).mp (by exact_mod_cast hvalue)
  have hlower : e - 1 ≤ Int.log 2 r.value := log2_sub_le_log_value hnum hden
  unfold binaryExponent
  change (if (r.scale 2 (-e)).den ≤ (r.scale 2 (-e)).num then e else e - 1) = _
  split
  · next h =>
    have := hscaled.mp h
    omega
  · next h =>
    have := mt hscaled.mpr h
    omega

end Exponent

end Ratio

end Waterjet.Number
