import Waterjet.Proofs.Rounding

/-! How a result is rounded and packed. The residual bits that are kept while a significand is
shifted to the right say how the exact value lies to the significand, so that the rounding at the
end is that of the exact value; and the bits into which the result is packed are those of the
nearest double. -/
namespace Waterjet.Number
open Float.Model Float.Model.UnpackedFloat

section Packing

theorem toNat_packComponents (s : Sign) (e : BitVec 11) (m : BitVec 52) :
    (packComponents Format.binary64 s e m).toNat =
      signedBits (s == .negative) (e.toNat * hiddenBit + m.toNat) := by
  have happend : (packComponents Format.binary64 s e m).toNat =
      (s.toBitVec.toNat * 2 ^ 11 + e.toNat) * 2 ^ 52 + m.toNat := by
    unfold packComponents
    rw [BitVec.toNat_append, BitVec.toNat_append, ← Nat.shiftLeft_add_eq_or_of_lt m.isLt,
      ← Nat.shiftLeft_add_eq_or_of_lt e.isLt, Nat.shiftLeft_eq, Nat.shiftLeft_eq]
  rw [happend]
  cases s with
  | negative =>
    change (1 * 2 ^ 11 + e.toNat) * 2 ^ 52 + m.toNat = signBit + (e.toNat * hiddenBit + m.toNat)
    unfold signBit hiddenBit
    omega
  | positive =>
    change (0 * 2 ^ 11 + e.toNat) * 2 ^ 52 + m.toNat = e.toNat * hiddenBit + m.toNat
    unfold hiddenBit
    omega

/-- The bits of a finite double whose significand fits, at an exponent no larger than it has to
be. Too large an exponent makes it infinite. -/
theorem toNat_pack_finite (s : Sign) {m k : Nat} (hm : 0 < m) (hlt : m < 2 * hiddenBit)
    (hnormal : hiddenBit ≤ m ∨ k = 0) :
    (UnpackedFloat.pack Format.binary64 (.finite s m (minExponent + k) hm)).toNat =
      signedBits (s == .negative) (min (m + k * hiddenBit) infinityBits) := by
  have hbiased : (minExponent + k + (Format.binary64.exponentBias : Int) +
      (Format.binary64.mantissaBitsWithoutImplicit : Int)).toNat = k + 1 := by
    change (-1074 + (k : Int) + 1023 + 52).toNat = k + 1
    omega
  have hlog : m.log2 + 1 = Format.binary64.mantissaBits ↔ hiddenBit ≤ m := by
    have hupper : m.log2 < 53 := (Nat.log2_lt hm.ne').mpr hlt
    have hlower : 52 ≤ m.log2 ↔ hiddenBit ≤ m := Nat.le_log2 hm.ne'
    change m.log2 + 1 = 53 ↔ _
    omega
  unfold UnpackedFloat.pack
  simp only [hbiased, hlog]
  split
  · next hover =>
    have hlarge : 2048 ≤ k + 1 + 1 := hover
    unfold packedInfinity
    rw [toNat_packComponents]
    congr 1
    change 2047 * hiddenBit + 0 = _
    unfold hiddenBit infinityBits at *
    omega
  next hover =>
  have hfits : k + 1 + 1 < 2048 := Nat.lt_of_not_le hover
  split
  · next hhidden =>
    rw [toNat_packComponents, BitVec.toNat_ofNat, BitVec.toNat_ofNat]
    congr 1
    change (k + 1) % 2048 * hiddenBit + m % hiddenBit = _
    unfold hiddenBit infinityBits at *
    omega
  · next hhidden =>
    cases hnormal.resolve_left hhidden
    rw [toNat_packComponents, BitVec.toNat_ofNat]
    congr 1
    change 0 * hiddenBit + m % hiddenBit = _
    unfold hiddenBit infinityBits at *
    omega

theorem toNat_pack_of_decoded {u : UnpackedFloat} {d : Dyadic}
    (hu : Decoded.ofUnpacked u = .finite d) (hd : d.Normal) :
    (UnpackedFloat.pack Format.binary64 u).toNat =
      signedBits d.negative (nearestBits d.magnitude) := by
  rw [nearestBits_magnitude hd]
  cases u with
  | notANumber => cases hu
  | infinity s => cases hu
  | zero s =>
    cases hu
    change (packComponents Format.binary64 s 0 0).toNat = _
    rw [toNat_packComponents, Int.sub_self]
    rfl
  | finite s m e hm =>
    cases hu
    obtain ⟨k, hk⟩ : ∃ k : Nat, minExponent + k = e := Int.le.dest hd.least
    subst hk
    rw [toNat_pack_finite s hm hd.fits (hd.normal.imp_right (by dsimp only; omega)),
      add_sub_cancel_left, Int.toNat_natCast]

theorem exists_decodeBits {bits : Nat} (h : bits % signBit < infinityBits) :
    ∃ d, decodeBits bits = .finite d := by
  unfold decodeBits
  dsimp only
  rw [if_neg (Nat.not_le.mpr h)]
  split <;> exact ⟨_, rfl⟩

theorem signBit_le_signedBits (negative : Bool) {bits : Nat} (h : bits < signBit) :
    decide (signBit ≤ signedBits negative bits) = negative := by
  cases negative with
  | true => exact decide_eq_true (Nat.le_add_right ..)
  | false => exact decide_eq_false (Nat.not_le.mpr h)

theorem signedBits_mod_signBit (negative : Bool) {bits : Nat} (h : bits < signBit) :
    signedBits negative bits % signBit = bits := by
  cases negative with
  | true =>
    change (signBit + bits) % signBit = bits
    rw [Nat.add_mod_left, Nat.mod_eq_of_lt h]
  | false => exact Nat.mod_eq_of_lt h

/-- Every pattern of bits but those for what is not a number comes back as it is. -/
theorem toBits_ofBits (negative : Bool) {bits : Nat} (h : bits ≤ infinityBits) :
    (ofBits negative bits).toBits.toNat = signedBits negative bits := by
  rcases h.lt_or_eq with hlt | rfl
  · have hsmall : bits < signBit := hlt.trans (by decide)
    have hmod := signedBits_mod_signBit negative hsmall
    have hword : (UInt64.ofNat (signedBits negative bits)).toNat = signedBits negative bits := by
      apply UInt64.toNat_ofNat_of_lt'
      unfold signedBits
      change _ < 2 * signBit
      split <;> omega
    obtain ⟨d, hd⟩ := exists_decodeBits (hmod.trans_lt hlt)
    obtain ⟨hnegative, hnormal, hnearest, -⟩ := of_decodeBits hd
    have hunpacked : Decoded.ofUnpacked (UnpackedFloat.unpack Format.binary64
        (UInt64.ofNat (signedBits negative bits)).toBitVec) = .finite d := by
      rw [← decodeBits_toNat, ← hd]
      exact congrArg decodeBits hword
    have hpacked := toNat_pack_of_decoded hunpacked hnormal
    rw [hnegative, signBit_le_signedBits negative hsmall, hnearest, hmod] at hpacked
    exact hpacked
  · cases negative <;> rfl

theorem decode_ofBits (negative : Bool) {bits : Nat} (h : bits ≤ infinityBits) :
    decode (ofBits negative bits) = decodeBits (signedBits negative bits) := by
  rw [decode, toBits_ofBits negative h]

theorem exists_decode_signed (negative : Bool) {bits : Nat} (h : bits < infinityBits) :
    ∃ d, decode (ofBits negative bits) = .finite d ∧ d.negative = negative ∧ d.Normal ∧
      nearestBits d.magnitude = bits := by
  have hsmall : bits < signBit := h.trans (by decide)
  have hmod := signedBits_mod_signBit negative hsmall
  obtain ⟨d, hd⟩ := exists_decodeBits (hmod.trans_lt h)
  obtain ⟨hnegative, hnormal, hnearest, -⟩ := of_decodeBits hd
  exact ⟨d, (decode_ofBits negative h.le).trans hd,
    hnegative.trans (signBit_le_signedBits negative hsmall), hnormal, hnearest.trans hmod⟩

theorem exists_decode_ofBits {bits : Nat} (h : bits < infinityBits) :
    ∃ d, decode (ofBits false bits) = .finite d ∧ d.negative = false ∧ d.Normal ∧
      nearestBits d.magnitude = bits :=
  exists_decode_signed false h

end Packing

section Shifting

/-- A significand with its two residual bits says how a ratio lies to its whole part. -/
structure Describes (em : ExtendedMantissa) (r : Ratio) : Prop where
  mantissa : em.mantissa = r.num / r.den
  roundBit : em.roundBit = true ↔ r.den ≤ 2 * (r.num % r.den)
  stickyBit : em.stickyBit = true ↔ 2 * (r.num % r.den) % r.den ≠ 0

theorem describes_exact (m : Nat) : Describes (.ofMantissaAndAccuracy m .exact) (.ofNat m) := by
  constructor <;> simp [ExtendedMantissa.ofMantissaAndAccuracy, Ratio.ofNat, Nat.mod_one]

theorem describes_fraction (m : Nat) {n : Nat} (hn : 0 < n) :
    Describes (.ofMantissaAndAccuracy (m / n) (accuracyOfFraction (m % n) n)) ⟨m, n⟩ := by
  have hlt : m % n < n := Nat.mod_lt m hn
  unfold accuracyOfFraction
  generalize hrest : m % n = rest at *
  split
  · next hzero =>
    constructor <;> simp [ExtendedMantissa.ofMantissaAndAccuracy, hrest, hzero]
    omega
  · next hpos =>
    cases hcompare : compare (2 * rest) n with
    | lt =>
      have hbelow := Nat.compare_eq_lt.mp hcompare
      constructor
      · rfl
      · simp [ExtendedMantissa.ofMantissaAndAccuracy, hrest, hbelow]
      · simp [ExtendedMantissa.ofMantissaAndAccuracy, hrest, Nat.mod_eq_of_lt hbelow, hpos]
    | eq =>
      have heq := Nat.compare_eq_eq.mp hcompare
      constructor
      · rfl
      · simp [ExtendedMantissa.ofMantissaAndAccuracy, hrest, heq]
      · simp [ExtendedMantissa.ofMantissaAndAccuracy, hrest, heq]
    | gt =>
      have habove := Nat.compare_eq_gt.mp hcompare
      have hmod : 2 * rest % n = 2 * rest - n := by
        rw [Nat.mod_eq_sub_mod habove.le, Nat.mod_eq_of_lt (by omega)]
      constructor
      · rfl
      · simp [ExtendedMantissa.ofMantissaAndAccuracy, hrest, habove.le]
      · simp [ExtendedMantissa.ofMantissaAndAccuracy, hrest, hmod]
        omega

namespace Describes

variable {em : ExtendedMantissa} {r : Ratio}

theorem shiftRightOne (h : Describes em r) (hden : 0 < r.den) :
    Describes em.shiftRightOne ⟨r.num, r.den * 2⟩ := by
  have hlt : r.num % r.den < r.den := Nat.mod_lt _ hden
  have hrest : r.num % (r.den * 2) = r.num % r.den + r.den * (r.num / r.den % 2) := Nat.mod_mul
  obtain ⟨hmantissa, hround, hsticky⟩ := h
  constructor
  · change em.mantissa / 2 = r.num / (r.den * 2)
    rw [hmantissa, Nat.div_div_eq_div_mul]
  · change (em.mantissa % 2 != 0) = true ↔ r.den * 2 ≤ 2 * (r.num % (r.den * 2))
    rw [bne_iff_ne, hmantissa, hrest]
    rcases Nat.mod_two_eq_zero_or_one (r.num / r.den) with hmod | hmod
    · rw [hmod]
      omega
    · rw [hmod]
      omega
  · change (em.roundBit || em.stickyBit) = true ↔ 2 * (r.num % (r.den * 2)) % (r.den * 2) ≠ 0
    have hdrop : 2 * (r.num % r.den + r.den * (r.num / r.den % 2)) % (r.den * 2) =
        2 * (r.num % r.den) := by
      rw [Nat.mul_add, ← Nat.mul_assoc, Nat.mul_comm 2 r.den, Nat.add_mul_mod_self_left,
        Nat.mod_eq_of_lt (by omega)]
    have hover : r.den ≤ 2 * (r.num % r.den) ∨ 2 * (r.num % r.den) % r.den ≠ 0 ↔
        r.num % r.den ≠ 0 := by
      by_cases hle : r.den ≤ 2 * (r.num % r.den)
      · omega
      · rw [Nat.mod_eq_of_lt (Nat.lt_of_not_le hle)]
        omega
    rw [Bool.or_eq_true, hround, hsticky, hrest, hdrop, hover]
    omega

theorem shiftRight (h : Describes em r) (hden : 0 < r.den) (k : Nat) :
    Describes (em >>> k) ⟨r.num, r.den * 2 ^ k⟩ := by
  change Describes (k.repeat ExtendedMantissa.shiftRightOne em) _
  induction k with
  | zero => simpa [Nat.repeat] using h
  | succ k ih =>
    have hstep := ih.shiftRightOne (Nat.mul_pos hden (Nat.two_pow_pos k))
    rwa [Nat.mul_assoc, ← Nat.pow_succ] at hstep

/-- Rounding by the residual bits is rounding the ratio. -/
theorem roundedMantissa (h : Describes em r) (hden : 0 < r.den) :
    em.roundedMantissa = r.round := by
  have hlt : r.num % r.den < r.den := Nat.mod_lt _ hden
  obtain ⟨hmantissa, hround, hsticky⟩ := h
  obtain ⟨m, b, c⟩ := em
  dsimp only at hmantissa hround hsticky
  subst hmantissa
  have habove : r.den ≤ 2 * (r.num % r.den) →
      2 * (r.num % r.den) % r.den = 2 * (r.num % r.den) - r.den := by
    intro hle
    rw [Nat.mod_eq_sub_mod hle, Nat.mod_eq_of_lt (by omega)]
  unfold Ratio.round
  generalize r.num / r.den = whole at *
  generalize r.num % r.den = rest at *
  dsimp only
  cases b with
  | false =>
    have hlow : 2 * rest < r.den := by simpa using hround
    rw [if_pos hlow]
    cases c <;> rfl
  | true =>
    have hhigh : r.den ≤ 2 * rest := by simpa using hround
    rw [if_neg (Nat.not_lt.mpr hhigh)]
    rw [habove hhigh] at hsticky
    cases c with
    | false =>
      have hhalf : 2 * rest - r.den = 0 := by simpa using hsticky
      rw [if_neg (by omega)]
      rfl
    | true =>
      have hrest : 2 * rest - r.den ≠ 0 := by simpa using hsticky
      rw [if_pos (by omega)]
      rfl

end Describes

end Shifting

section Rounding

variable {r : Ratio}

/-- The exponent to which the significand is shifted is the unit of the nearest double. -/
theorem targetExponent_eq {e : Int} (hnum : 0 < r.num) (hden : 0 < r.den)
    (h : 0 < r.num / r.den ∨ e ≤ minExponent) :
    Format.binary64.targetExponent (totalExponent (r.num / r.den) e) =
      unitExponent (r.scale 2 e) := by
  have htarget (m : Nat) : Format.binary64.targetExponent (totalExponent m e) =
      max ((m.log2 : Int) + 1 + e - 53) minExponent := rfl
  have hnum' : 0 < (r.scale 2 e).num := Nat.mul_pos hnum (Nat.pow_pos (by decide))
  rw [htarget, unitExponent_eq hnum' (Ratio.den_scale_pos (by decide) e hden),
    Ratio.log_value_scale hnum hden]
  rcases Nat.eq_zero_or_pos (r.num / r.den) with hzero | hwhole
  · have he : e ≤ minExponent := h.resolve_left hzero.not_gt
    have hlt : Int.log 2 r.value < 0 := by
      apply (Int.lt_zpow_iff_log_lt (by decide) (Ratio.value_pos hnum hden)).mp
      rw [zpow_zero, Ratio.value, div_lt_one (by exact_mod_cast hden)]
      exact_mod_cast (Nat.div_eq_zero_iff_lt hden).mp hzero
    rw [hzero, Nat.log2_zero]
    omega
  · rw [Ratio.log_value hden hwhole]
    omega

/-- A significand that fits stays where it is. -/
theorem shiftToTargetExponent_of_lt {m k : Nat} (hlt : m < 2 ^ 53)
    (hnormal : 2 ^ 52 ≤ m ∨ k = 0) :
    shiftToTargetExponent Format.binary64 m (minExponent + k) .exact =
      (⟨m, false, false⟩, minExponent + k) := by
  have htarget : Format.binary64.targetExponent (totalExponent m (minExponent + k)) =
      max ((m.log2 : Int) + 1 + (minExponent + k) - 53) minExponent := rfl
  have hlog : m.log2 < 53 := by
    rcases Nat.eq_zero_or_pos m with rfl | hpos
    · decide
    · exact (Nat.log2_lt hpos.ne').mpr hlt
  have hnormal' : 52 ≤ m.log2 ∨ k = 0 :=
    hnormal.imp_left fun h => (Nat.le_log2 (by omega)).mpr h
  have hstay : (max ((m.log2 : Int) + 1 + (minExponent + k) - 53) minExponent -
      (minExponent + k)).toNat = 0 := by
    omega
  unfold shiftToTargetExponent shiftToExponent
  dsimp only
  rw [htarget, hstay, Nat.cast_zero, Int.add_zero]
  rfl

/-- A carry is shifted into the exponent. -/
theorem shiftToTargetExponent_of_carry (k : Nat) :
    shiftToTargetExponent Format.binary64 (2 ^ 53) (minExponent + k) .exact =
      (⟨2 ^ 52, false, false⟩, minExponent + (k + 1 : Nat)) := by
  have htarget : Format.binary64.targetExponent (totalExponent (2 ^ 53) (minExponent + k)) =
      max (((2 ^ 53 : Nat).log2 : Int) + 1 + (minExponent + k) - 53) minExponent := rfl
  have hup : (max (((2 ^ 53 : Nat).log2 : Int) + 1 + (minExponent + k) - 53) minExponent -
      (minExponent + k)).toNat = 1 := by
    rw [Nat.log2_two_pow]
    omega
  unfold shiftToTargetExponent shiftToExponent
  dsimp only
  rw [htarget, hup, Int.add_assoc, ← Nat.cast_add]
  rfl

theorem toNat_pack_carry (s : Sign) {m k : Nat} (hle : m ≤ 2 ^ 53) (hnormal : 2 ^ 52 ≤ m ∨ k = 0)
    {shifted : ExtendedMantissa × Int}
    (h : shiftToTargetExponent Format.binary64 m (minExponent + k) .exact = shifted) :
    (UnpackedFloat.pack Format.binary64 (if h : shifted.1.mantissa = 0 then .zero s
      else .finite s shifted.1.mantissa shifted.2 (Nat.pos_of_ne_zero h))).toNat =
      signedBits (s == .negative) (min (m + k * hiddenBit) infinityBits) := by
  subst h
  rcases hle.lt_or_eq with hlt | rfl
  · rw [shiftToTargetExponent_of_lt hlt hnormal]
    dsimp only
    rcases Nat.eq_zero_or_pos m with rfl | hpos
    · have hk : k = 0 := hnormal.resolve_left (by decide)
      rw [dif_pos rfl, hk]
      exact toNat_packComponents s 0 0
    · rw [dif_neg hpos.ne']
      exact toNat_pack_finite s hpos hlt hnormal
  · rw [shiftToTargetExponent_of_carry]
    dsimp only
    rw [dif_neg (by decide),
      toNat_pack_finite (m := 2 ^ 52) s (by decide) (by decide) (.inl le_rfl)]
    congr 2
    unfold hiddenBit
    omega

/-- What is rounded with enough bits is the nearest double. -/
theorem toNat_pack_roundWithAccuracy (s : Sign) {e : Int} {acc : Accuracy} (hnum : 0 < r.num)
    (hden : 0 < r.den)
    (hacc : Describes (ExtendedMantissa.ofMantissaAndAccuracy (r.num / r.den) acc) r)
    (hwhole : 0 < r.num / r.den ∨ e ≤ minExponent)
    (he : e ≤ unitExponent (r.scale 2 e)) :
    (UnpackedFloat.pack Format.binary64
        (roundWithAccuracy Format.binary64 s (r.num / r.den) e acc)).toNat =
      signedBits (s == .negative) (nearestBits (r.scale 2 e)) := by
  have hnum' : 0 < (r.scale 2 e).num := Nat.mul_pos hnum (Nat.pow_pos (by decide))
  have hden' : 0 < (r.scale 2 e).den := Ratio.den_scale_pos (by decide) e hden
  obtain ⟨j, hj⟩ : ∃ j : Nat, unitExponent (r.scale 2 e) = e + j :=
    (Int.le.dest he).imp fun _ => Eq.symm
  obtain ⟨k, hk⟩ : ∃ k : Nat, unitExponent (r.scale 2 e) = minExponent + k := by
    have hmin : minExponent ≤ unitExponent (r.scale 2 e) := by
      rw [unitExponent_eq hnum' hden']
      exact le_max_right ..
    exact (Int.le.dest hmin).imp fun _ => Eq.symm
  have hfirst : shiftToTargetExponent Format.binary64 (r.num / r.den) e acc =
      (ExtendedMantissa.ofMantissaAndAccuracy (r.num / r.den) acc >>> j, minExponent + k) := by
    unfold shiftToTargetExponent shiftToExponent
    rw [targetExponent_eq hnum hden hwhole]
    dsimp only
    rw [← hk, hj, add_sub_cancel_left, Int.toNat_natCast]
  have hrounded :
      (ExtendedMantissa.ofMantissaAndAccuracy (r.num / r.den) acc >>> j).roundedMantissa =
        nearestSignificand (r.scale 2 e) := by
    have hshifted : 0 < r.den * 2 ^ j := Nat.mul_pos hden (Nat.two_pow_pos j)
    rw [(hacc.shiftRight hden j).roundedMantissa hshifted]
    apply Ratio.round_congr hshifted (Ratio.den_scale_pos (by decide) _ hden')
    have htwo : (2 : ℚ) ^ e ≠ 0 := by positivity
    rw [value_scale_unit, Ratio.value_scale (by decide), hj, Nat.cast_ofNat,
      zpow_add₀ two_ne_zero, mul_comm ((2 : ℚ) ^ e), mul_div_mul_right _ _ htwo, zpow_natCast,
      Ratio.value, Ratio.value, Nat.cast_mul, Nat.cast_pow, Nat.cast_ofNat, div_div]
  have hnormal : 2 ^ 52 ≤ nearestSignificand (r.scale 2 e) ∨ k = 0 := by
    rcases Nat.eq_zero_or_pos k with hzero | hpos
    · exact .inr hzero
    · exact .inl (le_nearestSignificand hnum' hden' (by omega))
  unfold roundWithAccuracy
  rw [hfirst]
  dsimp only
  rw [hrounded, nearestBits_eq hnum', hk, add_sub_cancel_left, Int.toNat_natCast]
  exact toNat_pack_carry s (nearestSignificand_le hnum' hden') hnormal rfl

theorem log2_shiftLeft {m : Nat} (hm : 0 < m) (k : Nat) : (m <<< k).log2 = m.log2 + k := by
  have hlow := Nat.log2_self_le hm.ne'
  have hhigh : m < 2 ^ (m.log2 + 1) := Nat.lt_log2_self
  rw [Nat.shiftLeft_eq, Nat.log2_eq_iff (Nat.mul_pos hm (Nat.two_pow_pos k)).ne',
    Nat.add_right_comm, Nat.pow_add, Nat.pow_add 2 (m.log2 + 1)]
  exact ⟨Nat.mul_le_mul_right _ hlow, Nat.mul_lt_mul_of_pos_right hhigh (Nat.two_pow_pos k)⟩

/-- A natural times a power of two, with an exponent that is small enough. -/
theorem toNat_pack_exact (s : Sign) {m : Nat} {e : Int} (hm : 0 < m)
    (he : e ≤ unitExponent ((Ratio.ofNat m).scale 2 e)) :
    (UnpackedFloat.pack Format.binary64
        (roundWithAccuracy Format.binary64 s m e .exact)).toNat =
      signedBits (s == .negative) (nearestBits ((Ratio.ofNat m).scale 2 e)) := by
  have hwhole : (Ratio.ofNat m).num / (Ratio.ofNat m).den = m := Nat.div_one m
  have hdescribes : Describes (ExtendedMantissa.ofMantissaAndAccuracy
      ((Ratio.ofNat m).num / (Ratio.ofNat m).den) .exact) (.ofNat m) := by
    rw [hwhole]
    exact describes_exact m
  have h := toNat_pack_roundWithAccuracy s (r := Ratio.ofNat m) hm Nat.one_pos hdescribes
    (.inl (hwhole.symm ▸ hm)) he
  rwa [hwhole] at h

theorem unitExponent_ofNat {m : Nat} (hm : 0 < m) (e : Int) :
    unitExponent ((Ratio.ofNat m).scale 2 e) = max ((m.log2 : Int) + e - 52) minExponent := by
  have hnum : 0 < ((Ratio.ofNat m).scale 2 e).num := Nat.mul_pos hm (Nat.pow_pos (by decide))
  have hwhole : (Ratio.ofNat m).num / (Ratio.ofNat m).den = m := Nat.div_one m
  rw [unitExponent_eq hnum (Ratio.den_scale_pos (by decide) e Nat.one_pos),
    Ratio.log_value_scale hm Nat.one_pos, Ratio.log_value Nat.one_pos (hwhole.symm ▸ hm), hwhole]

theorem toNat_pack_round (s : Sign) {m : Nat} (e : Int) (hm : 0 < m) :
    (UnpackedFloat.pack Format.binary64 (UnpackedFloat.round Format.binary64 s m e)).toNat =
      signedBits (s == .negative) (nearestBits ((Ratio.ofNat m).scale 2 e)) := by
  have htarget : Format.binary64.targetExponent (totalExponent m e) =
      max ((m.log2 : Int) + 1 + e - 53) minExponent := rfl
  obtain ⟨k, hk⟩ : ∃ k, (e - max ((m.log2 : Int) + 1 + e - 53) minExponent).toNat = k := ⟨_, rfl⟩
  have hlog : (m <<< k).log2 = m.log2 + k := log2_shiftLeft hm k
  have hpos : 0 < m <<< k := by
    rw [Nat.shiftLeft_eq]
    positivity
  unfold UnpackedFloat.round decreaseExponent
  dsimp only
  rw [htarget, hk, toNat_pack_exact s hpos]
  · congr 1
    apply nearestBits_congr (Ratio.den_scale_pos (by decide) _ Nat.one_pos)
      (Ratio.den_scale_pos (by decide) _ Nat.one_pos)
    rw [Ratio.value_scale (by decide), Ratio.value_scale (by decide), Ratio.value_ofNat,
      Ratio.value_ofNat, Nat.shiftLeft_eq, zpow_sub₀ (by norm_num), zpow_natCast]
    push_cast
    field_simp
  · rw [unitExponent_ofNat hpos, hlog]
    omega

/-- A quotient has bits enough before it is rounded. -/
theorem toNat_pack_div {m n : Nat} (hm : 0 < m) (hn : 0 < n) (e f : Int) :
    ∃ q : Ratio, 0 < q.den ∧ q.value = m * 2 ^ e / (n * 2 ^ f) ∧
      (UnpackedFloat.pack Format.binary64 (UnpackedFloat.div Format.binary64
        (.finite .positive m e hm) (.finite .positive n f hn))).toNat =
          signedBits false (nearestBits q) := by
  obtain ⟨T, hT⟩ : ∃ T, max ((m.log2 : Int) + 1 + e - (n.log2 + 1 + f) - 53) minExponent = T :=
    ⟨_, rfl⟩
  obtain ⟨t, ht⟩ : ∃ t, min (e - f) T = t := ⟨_, rfl⟩
  obtain ⟨k, hk⟩ : ∃ k : Nat, (k : Int) = e - f - t := ⟨(e - f - t).toNat, by omega⟩
  have hdiv : UnpackedFloat.div Format.binary64 (.finite .positive m e hm)
      (.finite .positive n f hn) =
        roundWithAccuracy Format.binary64 .positive ((m <<< k) / n) t
          (accuracyOfFraction ((m <<< k) % n) n) := by
    have htarget : Format.binary64.targetExponent (totalExponent m e - totalExponent n f) = T := hT
    unfold UnpackedFloat.div divCore
    dsimp only
    rw [htarget, ht, ← hk, Int.toNat_natCast]
    rfl
  let r : Ratio := ⟨m <<< k, n⟩
  have hnum : 0 < r.num := by
    change 0 < m <<< k
    rw [Nat.shiftLeft_eq]
    positivity
  have hlog : (m.log2 : Int) + k - n.log2 - 1 ≤ Int.log 2 r.value := by
    have hle := Ratio.log2_sub_le_log_value hnum hn
    rwa [show r.num.log2 = m.log2 + k from log2_shiftLeft hm k, Nat.cast_add] at hle
  have hwhole : 0 < r.num / r.den ∨ t ≤ minExponent := by
    by_cases hmin : t ≤ minExponent
    · exact .inr hmin
    · have hone : (1 : ℚ) ≤ r.value := by
        have hzero : (0 : Int) ≤ Int.log 2 r.value := by omega
        calc (1 : ℚ) = 2 ^ (0 : Int) := (zpow_zero 2).symm
          _ ≤ 2 ^ Int.log 2 r.value := zpow_le_zpow_right₀ one_le_two hzero
          _ ≤ r.value := Ratio.two_zpow_le_value hnum hn
      have hle : 1 * n ≤ r.num := (Ratio.le_value_iff hn 1).mp (by exact_mod_cast hone)
      exact .inl (Nat.div_pos ((Nat.one_mul n).symm.trans_le hle) hn)
  have hunit : t ≤ unitExponent (r.scale 2 t) := by
    have hnum' : 0 < (r.scale 2 t).num := Nat.mul_pos hnum (Nat.pow_pos (by decide))
    rw [unitExponent_eq hnum' (Ratio.den_scale_pos (by decide) t hn), Ratio.log_value_scale hnum hn]
    omega
  refine ⟨r.scale 2 t, Ratio.den_scale_pos (by decide) t hn, ?_, ?_⟩
  · have hexponent : t = e - f - k := by omega
    rw [Ratio.value_scale (by decide), hexponent, zpow_sub₀ (by norm_num), zpow_sub₀ (by norm_num)]
    simp only [r, Ratio.value, Nat.shiftLeft_eq]
    push_cast
    rw [zpow_natCast]
    field_simp
  · rw [hdiv]
    exact toNat_pack_roundWithAccuracy (r := r) .positive hnum hn (describes_fraction (m <<< k) hn)
      hwhole hunit

end Rounding

end Waterjet.Number
