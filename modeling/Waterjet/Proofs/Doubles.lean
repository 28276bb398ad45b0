import Mathlib
import Waterjet.Number.Literal

/-! Doubles as what they stand for. The fields of the bits give the value that decoding finds, and
with it what is not a number and what is finite. All the others stand in one linear order in which
only the two zeros share a place, and comparison reads off that order. -/
namespace Waterjet.Number
open Float.Model Float.Model.UnpackedFloat

/-- The value of an unpacked double. -/
def Decoded.ofUnpacked : UnpackedFloat → Decoded
  | .notANumber => .nan
  | .infinity s => .infinite (s == .negative)
  | .zero s => .finite ⟨s == .negative, 0, minExponent⟩
  | .finite s m e _ => .finite ⟨s == .negative, m, e⟩

section Fields

variable (b : BitVec 64)

theorem toNat_unpackMantissa :
    (@unpackMantissa Format.binary64 b).toNat = b.toNat % signBit % hiddenBit := by
  simp [unpackMantissa, hiddenBit, signBit]

theorem toNat_unpackExponent :
    (@unpackExponent Format.binary64 b).toNat = b.toNat % signBit / hiddenBit := by
  simp [unpackExponent, hiddenBit, signBit, Nat.shiftRight_eq_div_pow]
  omega

theorem toNat_unpackSign : (@unpackSign Format.binary64 b).toNat = b.toNat / signBit := by
  have hlt : b.toNat / signBit < 2 := Nat.div_lt_of_lt_mul b.isLt
  simpa [unpackSign, signBit, Nat.shiftRight_eq_div_pow] using hlt

theorem ofBitVec_unpackSign :
    (Sign.ofBitVec (@unpackSign Format.binary64 b) == .negative) = decide (signBit ≤ b.toNat) := by
  have hzero : @unpackSign Format.binary64 b = 0#1 ↔ b.toNat < signBit := by
    rw [← BitVec.toNat_inj, toNat_unpackSign]
    exact Nat.div_eq_zero_iff_lt (by decide)
  unfold Sign.ofBitVec
  by_cases hs : signBit ≤ b.toNat
  · rw [if_neg (mt hzero.mp (Nat.not_lt.mpr hs)), decide_eq_true hs]
    rfl
  · rw [if_pos (hzero.mpr (Nat.lt_of_not_le hs)), decide_eq_false hs]
    rfl

/-- The significand of a normal double has the hidden bit in front. -/
theorem toNat_hidden_append (m : BitVec 52) : (1#1 ++ m).toNat = m.toNat + hiddenBit := by
  rw [BitVec.toNat_append, ← Nat.shiftLeft_add_eq_or_of_lt m.isLt, Nat.add_comm]
  rfl

theorem decodeBits_toNat :
    decodeBits b.toNat = .ofUnpacked (UnpackedFloat.unpack Format.binary64 b) := by
  have hm := toNat_unpackMantissa b
  have he := toNat_unpackExponent b
  have hs := ofBitVec_unpackSign b
  have htop : infinityBits ≤ b.toNat % signBit ↔ @unpackExponent Format.binary64 b = -1#11 := by
    have hones : (-1#11 : BitVec 11).toNat = 2047 := rfl
    rw [← BitVec.toNat_inj, he, hones]
    unfold infinityBits signBit hiddenBit
    omega
  have hbottom : b.toNat % signBit / hiddenBit = 0 ↔ @unpackExponent Format.binary64 b = 0#11 := by
    rw [← BitVec.toNat_inj, he]
    rfl
  have hmantissa :
      b.toNat % signBit % hiddenBit = 0 ↔ @unpackMantissa Format.binary64 b = 0#52 := by
    rw [← BitVec.toNat_inj, hm]
    rfl
  have hbias : (Format.binary64.exponentBias : Int) = 1023 := rfl
  unfold decodeBits UnpackedFloat.unpack
  simp only [htop, hbottom, hmantissa, beq_iff_eq]
  split
  · split
    · rw [Decoded.ofUnpacked, hs]
    · rfl
  · split
    next hfield =>
      have hexponent : (@unpackExponent Format.binary64 b).toNat = 0 := by rw [hfield]; rfl
      split
      next hfraction =>
        rw [Decoded.ofUnpacked, hs, hmantissa.mpr hfraction]
      next =>
        rw [Decoded.ofUnpacked, hs, hm, hexponent, hbias]
        rfl
    next =>
      rw [Decoded.ofUnpacked, hs, toNat_hidden_append, hm, he, hbias]
      congr 2
      unfold minExponent
      omega

end Fields

theorem decode_eq (x : Float) : decode x = .ofUnpacked x.toModel.unpack :=
  decodeBits_toNat x.toBits.toBitVec

theorem Decoded.ofUnpacked_eq_nan_iff (u : UnpackedFloat) :
    ofUnpacked u = .nan ↔ u.isNaN = true := by
  cases u <;> simp [UnpackedFloat.isNaN, ofUnpacked]

theorem isFinite_iff (x : Float) : x.isFinite = true ↔ ∃ d, decode x = .finite d := by
  rw [decode_eq]
  change x.toModel.unpack.isFinite = true ↔ _
  cases x.toModel.unpack <;> simp [UnpackedFloat.isFinite, Decoded.ofUnpacked]

theorem isInf_iff (x : Float) : x.isInf = true ↔ ∃ negative, decode x = .infinite negative := by
  rw [decode_eq]
  change x.toModel.unpack.isInf = true ↔ _
  cases x.toModel.unpack <;> simp [UnpackedFloat.isInf, Decoded.ofUnpacked]

theorem isNaN_iff (x : Float) : x.isNaN = true ↔ decode x = .nan := by
  rw [decode_eq, Decoded.ofUnpacked_eq_nan_iff]
  rfl

theorem isNaN_unpack (b : BitVec 64) :
    (UnpackedFloat.unpack Format.binary64 b).isNaN = @isNaNBits Format.binary64 b := by
  unfold UnpackedFloat.unpack isNaNBits
  dsimp only
  split
  next htop =>
    split
    next hzero => rw [decide_eq_false fun h => h.2 hzero]; rfl
    next hzero => rw [decide_eq_true ⟨htop, hzero⟩]; rfl
  next htop =>
    rw [decide_eq_false fun h => htop h.1]
    split
    · split <;> rfl
    · rfl

/-- Packing keeps what is not a number, and makes nothing else into it. -/
theorem isNaN_unpack_pack (u : UnpackedFloat) :
    (UnpackedFloat.unpack Format.binary64 (UnpackedFloat.pack Format.binary64 u)).isNaN =
      u.isNaN := by
  rw [isNaN_unpack]
  fun_cases UnpackedFloat.pack Format.binary64 u with
  | case1 => exact isNaNBits_packedNaN
  | case2 s => cases s <;> rfl
  | case3 s => cases s <;> rfl
  | case4 s => cases s <;> rfl
  | case5 s m e hm _ biased hbiased =>
    -- An exponent that would fill its field has been made infinite before.
    have hexponent : BitVec.ofNat 11 biased ≠ -1#11 := by
      intro heq
      have hnat : biased % 2048 = 2047 := congrArg BitVec.toNat heq
      have hlt : biased + 1 < 2048 := Nat.lt_of_not_le hbiased
      omega
    unfold isNaNBits
    rw [unpackExponent_packComponents]
    exact decide_eq_false fun h => hexponent h.1
  | case6 s m e hm =>
    have hexponent : 0#11 ≠ -1#11 := by decide
    unfold isNaNBits
    rw [unpackExponent_packComponents]
    exact decide_eq_false fun h => hexponent h.1

theorem decodeBits_ne_nan {bits : Nat} (h : bits % signBit ≤ infinityBits) :
    decodeBits bits ≠ .nan := by
  unfold decodeBits
  dsimp only
  split
  next htop =>
    have hfraction : bits % signBit % hiddenBit = 0 := by
      rw [Nat.le_antisymm h htop]
      decide
    rw [hfraction]
    nofun
  · split <;> nofun

/-- A double read off its bits is a number unless they are beyond those of infinity. -/
theorem isNaN_ofBits {negative : Bool} {bits : Nat} (h : bits ≤ infinityBits) :
    (ofBits negative bits).isNaN = false := by
  have hlt : bits < signBit := Nat.lt_of_le_of_lt h (by decide)
  let word := UInt64.ofNat (if negative then signBit + bits else bits)
  have hword : word.toBitVec.toNat % signBit = bits := by
    cases negative with
    | true =>
      change (signBit + bits) % (2 * signBit) % signBit = bits
      rw [Nat.mod_mul_left_mod, Nat.add_mod_left, Nat.mod_eq_of_lt hlt]
    | false =>
      change bits % (2 * signBit) % signBit = bits
      rw [Nat.mod_mul_left_mod, Nat.mod_eq_of_lt hlt]
  have hunpacked : (UnpackedFloat.unpack Format.binary64 word.toBitVec).isNaN = false := by
    rw [← Bool.not_eq_true, ← Decoded.ofUnpacked_eq_nan_iff, ← decodeBits_toNat]
    exact decodeBits_ne_nan (hword.trans_le h)
  exact (isNaN_unpack_pack _).trans hunpacked

theorem isNaN_ofRatio (negative : Bool) (r : Ratio) : (ofRatio negative r).isNaN = false :=
  isNaN_ofBits (nearestBits_le r)

/-- No numeral stands for what is not a number. -/
theorem isNaN_toDouble (d : Decimal) : d.toDouble.isNaN = false := by
  unfold Decimal.toDouble
  dsimp only
  split
  · exact isNaN_ofBits (Nat.zero_le _)
  split
  · exact isNaN_ofBits le_rfl
  split
  · exact isNaN_ofBits (Nat.zero_le _)
  · exact isNaN_ofRatio ..

/-- A place in the order: the sign and the kind first, then the exponent, then the significand. -/
abbrev Rank : Type := ℤ ×ₗ ℤ ×ₗ ℤ

namespace Rank

def ofUnpacked : UnpackedFloat → Rank
  | .infinity .negative => toLex (-2, toLex (0, 0))
  | .finite .negative m e _ => toLex (-1, toLex (-e, -m))
  | .zero _ => toLex (0, toLex (0, 0))
  | .finite .positive m e _ => toLex (1, toLex (e, m))
  | .infinity .positive => toLex (2, toLex (0, 0))
  | .notANumber => toLex (0, toLex (0, 0))

end Rank

/-- Where a double stands in the order. What is not a number has no place of its own. -/
def rank (x : Float) : Rank := .ofUnpacked x.toModel.unpack

theorem compare_natCast (m n : ℕ) : compare (m : ℤ) n = compare m n := by
  rw [← cmp_eq_compare, ← cmp_eq_compare]
  exact StrictMono.cmp_map_eq (fun _ _ => Int.ofNat_lt.mpr) m n

theorem compare_neg_neg (a b : ℤ) : compare (-a) (-b) = (compare a b).swap := by
  rw [← cmp_eq_compare, ← cmp_eq_compare, cmp_swap]
  exact StrictAnti.cmp_map_eq (fun _ _ => Int.neg_lt_neg) a b

theorem Rank.compare_ofUnpacked {u v : UnpackedFloat} (hu : u.isNaN = false)
    (hv : v.isNaN = false) : u.compare v = some (compare (ofUnpacked u) (ofUnpacked v)) := by
  cases u with
  | notANumber => cases hu
  | infinity s =>
    cases v with
    | notANumber => cases hv
    | infinity t => cases s <;> cases t <;> rfl
    | zero t => cases s <;> cases t <;> rfl
    | finite t => cases s <;> cases t <;> rfl
  | zero s =>
    cases v with
    | notANumber => cases hv
    | infinity t => cases s <;> cases t <;> rfl
    | zero t => cases s <;> cases t <;> rfl
    | finite t => cases s <;> cases t <;> rfl
  | finite s m e =>
    cases v with
    | notANumber => cases hv
    | infinity t => cases s <;> cases t <;> rfl
    | zero t => cases s <;> cases t <;> rfl
    | finite t n f =>
      -- Below zero the order of the magnitudes is turned round.
      have hpositive : (compare e f).then (compare m n) =
          compare (toLex (e, (m : ℤ))) (toLex (f, (n : ℤ))) := by
        rw [← compare_natCast]
        rfl
      have hnegative : ((compare e f).then (compare m n)).swap =
          compare (toLex (-e, -(m : ℤ))) (toLex (-f, -(n : ℤ))) := by
        rw [Ordering.swap_then, ← compare_natCast, ← compare_neg_neg, ← compare_neg_neg]
        rfl
      cases s <;> cases t
      · exact congrArg some hnegative
      · rfl
      · rfl
      · exact congrArg some hpositive

/-- Numbers that are equal are not above each other; nothing else is equal. -/
theorem le_of_beq {x y : Float} (h : (x == y) = true) : x ≤ y := by
  have heq : (x.toModel.unpack.compare y.toModel.unpack == some .eq) = true := h
  have hle : (x.toModel.unpack.compare y.toModel.unpack).any (·.isLE) = true := by
    rw [beq_iff_eq.mp heq]
    rfl
  exact decide_eq_true hle

theorem beq_eq_false_of_not_le {x y : Float} (h : ¬ x ≤ y) : (x == y) = false :=
  Bool.eq_false_iff.mpr (mt le_of_beq h)

/-- What is not a number is below nothing. -/
theorem isNaN_of_le {x y : Float} (h : x ≤ y) : x.isNaN = false := by
  have hle : (x.toModel.unpack.compare y.toModel.unpack).any (·.isLE) = true := of_decide_eq_true h
  change x.toModel.unpack.isNaN = false
  cases hu : x.toModel.unpack with
  | notANumber =>
    rw [hu] at hle
    cases hle
  | _ => rfl

/-- Nothing is below what is not a number. -/
theorem isNaN_of_le_right {x y : Float} (h : x ≤ y) : y.isNaN = false := by
  have hle : (x.toModel.unpack.compare y.toModel.unpack).any (·.isLE) = true := of_decide_eq_true h
  change y.toModel.unpack.isNaN = false
  cases hv : y.toModel.unpack with
  | notANumber =>
    rw [hv] at hle
    cases hu : x.toModel.unpack <;> rw [hu] at hle <;> cases hle
  | _ => rfl

theorem le_of_lt {x y : Float} (h : x < y) : x ≤ y := by
  have hlt : (x.toModel.unpack.compare y.toModel.unpack == some .lt) = true := of_decide_eq_true h
  have hle : (x.toModel.unpack.compare y.toModel.unpack).any (·.isLE) = true := by
    rw [beq_iff_eq.mp hlt]
    rfl
  exact decide_eq_true hle

section Order

variable {x y : Float} (hx : x.isNaN = false) (hy : y.isNaN = false)
include hx hy

theorem lt_iff_rank : x < y ↔ rank x < rank y := by
  have h : x < y ↔ (x.toModel.unpack.compare y.toModel.unpack == some .lt) = true :=
    decide_eq_true_iff
  rw [h, Rank.compare_ofUnpacked hx hy, beq_iff_eq, Option.some.injEq, compare_lt_iff_lt]
  rfl

theorem le_iff_rank : x ≤ y ↔ rank x ≤ rank y := by
  have h : x ≤ y ↔ (x.toModel.unpack.compare y.toModel.unpack).any (·.isLE) = true :=
    decide_eq_true_iff
  rw [h, Rank.compare_ofUnpacked hx hy, Option.any_some, Ordering.isLE_iff_ne_gt]
  exact compare_le_iff_le

theorem beq_iff_rank : (x == y) = true ↔ rank x = rank y := by
  change (x.toModel.unpack.compare y.toModel.unpack == some .eq) = true ↔ _
  rw [Rank.compare_ofUnpacked hx hy, beq_iff_eq, Option.some.injEq, compare_eq_iff_eq]
  rfl

theorem not_lt_of_le (h : x ≤ y) : ¬ y < x := by
  rw [lt_iff_rank hy hx]
  exact ((le_iff_rank hx hy).mp h).not_gt

theorem beq_of_le_of_le (hxy : x ≤ y) (hyx : y ≤ x) : (x == y) = true := by
  have hle : rank x ≤ rank y := (le_iff_rank hx hy).mp hxy
  have hge : rank y ≤ rank x := (le_iff_rank hy hx).mp hyx
  exact (beq_iff_rank hx hy).mpr (hle.antisymm hge)

end Order

section Guards

variable {x y : Float} (hy : y.isNaN = false)
include hy

/-- What a guard against less lets pass: what is not less, and what is not a number. -/
theorem not_lt_iff : ¬ x < y ↔ x.isNaN = true ∨ y ≤ x := by
  cases hx : x.isNaN with
  | true =>
    refine iff_of_true (fun h => ?_) (.inl rfl)
    rw [isNaN_of_le (le_of_lt h)] at hx
    cases hx
  | false => rw [lt_iff_rank hx hy, le_iff_rank hy hx, not_lt, or_iff_right Bool.false_ne_true]

theorem not_le_iff : ¬ x ≤ y ↔ x.isNaN = true ∨ y < x := by
  cases hx : x.isNaN with
  | true =>
    refine iff_of_true (fun h => ?_) (.inl rfl)
    rw [isNaN_of_le h] at hx
    cases hx
  | false => rw [le_iff_rank hx hy, lt_iff_rank hy hx, not_le, or_iff_right Bool.false_ne_true]

end Guards

end Waterjet.Number
