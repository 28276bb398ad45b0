import Waterjet.Estimate.ConfigFile
import Waterjet.Proofs.Rounding

/-! Numerals as a file spells them. The shortest digits of a double stand for it, wherever the point
and the exponent are put, and a reader that comes to the end of a numeral has found its digits, its
point and its exponent again. -/
namespace Waterjet
open Number

namespace Number

section Values

theorem foldl_digitsValue (n : Nat) (cs : List Char) :
    cs.foldl (fun n c => 10 * n + (Text.digit? c).getD 0) n =
      n * 10 ^ cs.length + digitsValue cs := by
  induction cs generalizing n with
  | nil => simp [digitsValue]
  | cons c cs ih =>
    have hfirst : digitsValue (c :: cs) =
        (10 * 0 + (Text.digit? c).getD 0) * 10 ^ cs.length + digitsValue cs := ih _
    rw [List.foldl_cons, ih, hfirst, List.length_cons, pow_succ]
    ring

theorem digitsValue_append (cs ds : List Char) :
    digitsValue (cs ++ ds) = digitsValue cs * 10 ^ ds.length + digitsValue ds := by
  rw [digitsValue, List.foldl_append]
  exact foldl_digitsValue _ ds

theorem digitsValue_zeros (k : Nat) : digitsValue (List.replicate k '0') = 0 := by
  induction k with
  | zero => rfl
  | succ k ih => exact ih

theorem digitsValue_append_zeros (cs : List Char) (k : Nat) :
    digitsValue (cs ++ List.replicate k '0') = digitsValue cs * 10 ^ k := by
  rw [digitsValue_append, digitsValue_zeros, List.length_replicate, Nat.add_zero]

theorem digitsValue_zeros_append (k : Nat) (cs : List Char) :
    digitsValue (List.replicate k '0' ++ cs) = digitsValue cs := by
  rw [digitsValue_append, digitsValue_zeros, Nat.zero_mul, Nat.zero_add]

theorem digitsValue_eq_ofDigitChars {cs : List Char} (h : ∀ c ∈ cs, c.isDigit = true) :
    digitsValue cs = Nat.ofDigitChars 10 cs 0 := by
  apply List.foldl_ext
  intro n c hc
  rw [Text.digit?_eq_some_of_isDigit (h c hc)]
  rfl

end Values

section Digits

theorem isDigit_decimalDigits {n : Nat} {c : Char} (h : c ∈ decimalDigits n) : c.isDigit = true :=
  Nat.isDigit_of_mem_toDigits (by decide) (by decide) h

theorem digitsValue_decimalDigits (n : Nat) : digitsValue (decimalDigits n) = n := by
  rw [digitsValue_eq_ofDigitChars fun c => isDigit_decimalDigits]
  exact Nat.ofDigitChars_ten_toDigits

theorem decimalDigits_ne_nil (n : Nat) : decimalDigits n ≠ [] := Nat.toDigits_ne_nil

theorem isDigit_zeros {k : Nat} {c : Char} (h : c ∈ List.replicate k '0') : c.isDigit = true := by
  rw [List.eq_of_mem_replicate h]
  rfl

theorem digitsValue_padded (width n : Nat) : digitsValue (padded width n) = n := by
  rw [padded, digitsValue_zeros_append, digitsValue_decimalDigits]

theorem isDigit_padded {width n : Nat} {c : Char} (h : c ∈ padded width n) : c.isDigit = true :=
  (List.mem_append.mp h).elim isDigit_zeros isDigit_decimalDigits

theorem ne_of_isDigit {c d : Char} (hc : c.isDigit = true) (hd : d.isDigit = false) : c ≠ d := by
  rintro rfl
  exact Bool.noConfusion (hc.symm.trans hd)

theorem takeWhile_append_of_head {p : Char → Bool} {cs rest : List Char} (h : ∀ c ∈ cs, p c = true)
    (hrest : ∀ c ∈ rest.head?, p c = false) :
    (cs ++ rest).takeWhile p = cs ∧ (cs ++ rest).dropWhile p = rest := by
  rw [List.takeWhile_append_of_pos h, List.dropWhile_append_of_pos h]
  cases rest with
  | nil => exact ⟨List.append_nil cs, rfl⟩
  | cons c rest =>
    have hc : ¬ p c = true := Bool.eq_false_iff.mp (hrest c rfl)
    rw [List.takeWhile_cons_of_neg hc, List.dropWhile_cons_of_neg hc, List.append_nil]
    exact ⟨rfl, rfl⟩

theorem eq_dropTrailingZeros_append (cs : List Char) :
    ∃ k, cs = dropTrailingZeros cs ++ List.replicate k '0' := Text.eq_dropEnd_append '0' cs

end Digits

/-- The parts of a numeral that stands for a double. -/
structure Spelling where
  whole : List Char
  fraction : List Char
  exponent : Option Int

namespace Spelling

def chars (s : Spelling) : List Char :=
  s.whole ++ ((if s.fraction.isEmpty then [] else '.' :: s.fraction) ++
    s.exponent.elim [] exponentMark)

def decimal (s : Spelling) (negative : Bool) : Decimal :=
  ⟨negative, digitsValue (s.whole ++ s.fraction), s.exponent.getD 0 - s.fraction.length⟩

end Spelling

/-- Digits that do not start with a zero. -/
structure IsLeading (cs : List Char) : Prop where
  digit : ∀ c ∈ cs, c.isDigit = true
  ne_nil : cs ≠ []
  head : cs.head? ≠ some '0'

/-- A positive number is not written with a zero in front. -/
theorem isLeading_decimalDigits {n : Nat} (h : 0 < n) : IsLeading (decimalDigits n) where
  digit _ := isDigit_decimalDigits
  ne_nil := decimalDigits_ne_nil n
  head := by
    induction n using Nat.strong_induction_on with
    | _ n ih =>
      unfold decimalDigits at ih ⊢
      rcases Nat.lt_or_ge n 10 with hlt | hge
      · rw [Nat.toDigits_of_lt_base hlt]
        interval_cases n <;> decide
      · rw [Nat.toDigits_of_base_le (by decide) hge,
          List.head?_append_of_ne_nil _ Nat.toDigits_ne_nil]
        exact ih (n / 10) (Nat.div_lt_self h (by decide)) (Nat.div_pos hge (by decide))

/-- The whole digits of a numeral: a single zero, or digits that start with another. -/
def IsWhole (cs : List Char) : Prop := cs = ['0'] ∨ IsLeading cs

theorem IsWhole.digit {cs : List Char} (h : IsWhole cs) : ∀ c ∈ cs, c.isDigit = true := by
  obtain rfl | h := h
  · exact List.forall_mem_singleton.mpr rfl
  · exact h.digit

theorem IsWhole.exists_cons {cs : List Char} (h : IsWhole cs) :
    ∃ c tail, cs = c :: tail ∧ c.isDigit = true := by
  obtain rfl | h := h
  · exact ⟨'0', [], rfl, rfl⟩
  · obtain ⟨c, tail, rfl⟩ := List.exists_cons_of_ne_nil h.ne_nil
    exact ⟨c, tail, rfl, h.digit c List.mem_cons_self⟩

theorem isWhole_decimalDigits (n : Nat) : IsWhole (decimalDigits n) := by
  rcases Nat.eq_zero_or_pos n with rfl | hpos
  · exact .inl rfl
  · exact .inr (isLeading_decimalDigits hpos)

theorem IsLeading.append {cs ds : List Char} (h : IsLeading cs)
    (hds : ∀ c ∈ ds, c.isDigit = true) : IsLeading (cs ++ ds) where
  digit c hc := (List.mem_append.mp hc).elim (h.digit c) (hds c)
  ne_nil := List.append_ne_nil_of_left_ne_nil h.ne_nil ds
  head := by
    rw [List.head?_append_of_ne_nil _ h.ne_nil]
    exact h.head

structure Spelling.Valid (s : Spelling) : Prop where
  whole : IsWhole s.whole
  fraction : ∀ c ∈ s.fraction, c.isDigit = true
  double : s.fraction ≠ [] ∨ s.exponent.isSome = true

end Number

namespace Json

/-- What no numeral goes on with. -/
def EndsNumeral (rest : List Char) : Prop :=
  ∀ c ∈ rest.head?, c.isDigit = false ∧ c ≠ '.' ∧ c ≠ 'e' ∧ c ≠ 'E'

section Parts

variable {cs rest : List Char}

theorem takeDigits_append (h : ∀ c ∈ cs, c.isDigit = true)
    (hrest : ∀ c ∈ rest.head?, c.isDigit = false) : takeDigits (cs ++ rest) = (cs, rest) := by
  obtain ⟨htake, hdrop⟩ := takeWhile_append_of_head h hrest
  rw [takeDigits, htake, hdrop]

theorem takeWhole?_append (h : IsWhole cs) (hrest : ∀ c ∈ rest.head?, c.isDigit = false) :
    takeWhole? (cs ++ rest) = some (cs, rest) := by
  obtain rfl | h := h
  · rfl
  · obtain ⟨c, tail, rfl⟩ := List.exists_cons_of_ne_nil h.ne_nil
    have hc : ¬ (c == '0') = true := fun heq => h.head (congrArg some (beq_iff_eq.mp heq))
    rw [List.cons_append, takeWhole?, if_neg hc, if_pos (h.digit c List.mem_cons_self),
      ← List.cons_append, takeDigits_append h.digit hrest]

theorem takeFraction?_append (h : ∀ c ∈ cs, c.isDigit = true) (hne : cs ≠ [])
    (hrest : ∀ c ∈ rest.head?, c.isDigit = false) :
    takeFraction? ('.' :: cs ++ rest) = some (cs, rest) := by
  obtain ⟨c, tail, rfl⟩ := List.exists_cons_of_ne_nil hne
  have htake := takeDigits_append h hrest
  rw [List.cons_append] at htake
  rw [List.cons_append, List.cons_append, takeFraction?, if_pos (h c List.mem_cons_self), htake]

theorem takeFraction?_eq_none (h : ∀ c ∈ rest.head?, c ≠ '.') : takeFraction? rest = none := by
  unfold takeFraction?
  split
  · exact absurd rfl (h '.' rfl)
  · rfl

theorem takeExponent?_append (e : Int) (hrest : ∀ c ∈ rest.head?, c.isDigit = false) :
    takeExponent? (exponentMark e ++ rest) = some (e, rest) := by
  have hdigits : takeDigits (padded 2 e.natAbs ++ rest) = (padded 2 e.natAbs, rest) :=
    takeDigits_append (fun _ => isDigit_padded) hrest
  have hne : (padded 2 e.natAbs).isEmpty = false := by
    simp [padded, decimalDigits_ne_nil]
  have hsigned (negative : Bool) (sign : Char)
      (hsign : takeSign (sign :: (padded 2 e.natAbs ++ rest)) =
        (negative, padded 2 e.natAbs ++ rest)) :
      signedExponent (sign :: (padded 2 e.natAbs ++ rest)) =
        some (if negative then -(e.natAbs : Int) else e.natAbs, rest) := by
    unfold signedExponent
    rw [hsign]
    dsimp only
    rw [hdigits]
    dsimp only
    rw [hne, digitsValue_padded]
    rfl
  unfold exponentMark
  rw [List.cons_append, List.cons_append, takeExponent?, if_pos (by decide)]
  split
  next hneg =>
    rw [hsigned true '-' rfl, if_pos rfl]
    congr
    omega
  next hpos =>
    rw [hsigned false '+' rfl, if_neg (by decide)]
    congr
    omega

theorem takeExponent?_eq_none (h : ∀ c ∈ rest.head?, c ≠ 'e' ∧ c ≠ 'E') :
    takeExponent? rest = none := by
  cases rest with
  | nil => rfl
  | cons c rest =>
    obtain ⟨he, hE⟩ := h c rfl
    simp [takeExponent?, he, hE]

end Parts

/-- A numeral with a point or an exponent is read as the double nearest to what it says. -/
theorem readUnsigned?_chars {s : Spelling} (h : s.Valid) (negative : Bool) {rest : List Char}
    (hrest : EndsNumeral rest) :
    readUnsigned? negative (s.chars ++ rest) =
      some (.ok (.double (s.decimal negative).toDouble, rest)) := by
  obtain ⟨whole, fraction, exponent⟩ := s
  obtain ⟨hwhole, hfraction, hdouble⟩ := h
  dsimp only at hwhole hfraction hdouble
  let mark := exponent.elim [] exponentMark
  have hmark : ∀ c ∈ (mark ++ rest).head?, c.isDigit = false ∧ c ≠ '.' := by
    cases exponent with
    | none => exact fun c hc => ⟨(hrest c hc).1, (hrest c hc).2.1⟩
    | some e =>
      intro c hc
      cases hc
      decide
  have hexponent : takeExponent? (mark ++ rest) = exponent.map fun e => (e, rest) := by
    cases exponent with
    | none => exact takeExponent?_eq_none fun c hc => (hrest c hc).2.2
    | some e => exact takeExponent?_append e fun c hc => (hrest c hc).1
  unfold Spelling.chars Spelling.decimal readUnsigned?
  dsimp only
  cases fraction with
  | nil =>
    have htake := takeWhole?_append hwhole fun c hc => (hmark c hc).1
    have hnone := takeFraction?_eq_none fun c hc => (hmark c hc).2
    obtain ⟨e, rfl⟩ := Option.isSome_iff_exists.mp (hdouble.resolve_left (absurd rfl))
    rw [List.isEmpty_nil, if_pos rfl, List.nil_append, List.append_assoc, htake]
    simp [hnone, hexponent]
  | cons f fraction =>
    have hpoint : ∀ c ∈ ('.' :: f :: fraction ++ (mark ++ rest)).head?, c.isDigit = false := by
      rintro c ⟨⟩
      decide
    have htake := takeWhole?_append hwhole hpoint
    have hsome := takeFraction?_append hfraction (List.cons_ne_nil f fraction)
      fun c hc => (hmark c hc).1
    rw [List.isEmpty_cons, if_neg (by decide), List.append_assoc, List.append_assoc, htake]
    generalize '.' :: f :: fraction ++ (mark ++ rest) = tail at hsome
    cases exponent with
    | none =>
      have hbehind : mark ++ rest = rest := rfl
      rw [hbehind] at hsome hexponent
      simp [hsome, hexponent]
    | some e =>
      generalize mark ++ rest = behind at hsome hexponent
      simp [hsome, hexponent]

/-- A numeral of whole digits is read as an integer. -/
theorem readUnsigned?_whole {whole : List Char} (h : IsWhole whole)
    (hdigits : whole.length ≤ maxDigits) (negative : Bool) {rest : List Char}
    (hrest : EndsNumeral rest) :
    readUnsigned? negative (whole ++ rest) =
      some (.ok (.integer (if negative then -digitsValue whole else digitsValue whole), rest)) := by
  have hwhole := takeWhole?_append h fun c hc => (hrest c hc).1
  have hfraction := takeFraction?_eq_none fun c hc => (hrest c hc).2.1
  have hexponent := takeExponent?_eq_none fun c hc => (hrest c hc).2.2
  unfold readUnsigned?
  rw [hwhole]
  simp [hfraction, hexponent, hdigits.not_gt]

end Json

namespace Number

theorem Digits.value_ratio (d : Digits) :
    d.ratio.value = d.coefficient * (10 : ℚ) ^ d.exponent := by
  rw [ratio, Ratio.value_scale (by decide), Ratio.value_ofNat]
  rfl

/-- The digits of a positive number up to the last that is not zero. -/
theorem dropTrailingZeros_decimalDigits {n : Nat} (h : 0 < n) :
    IsLeading (dropTrailingZeros (decimalDigits n)) ∧
      ∃ z, (decimalDigits n).length = (dropTrailingZeros (decimalDigits n)).length + z ∧
        digitsValue (dropTrailingZeros (decimalDigits n)) * 10 ^ z = n := by
  obtain ⟨z, hz⟩ := eq_dropTrailingZeros_append (decimalDigits n)
  have hvalue := digitsValue_decimalDigits n
  have hleading := isLeading_decimalDigits h
  generalize dropTrailingZeros (decimalDigits n) = digits at *
  rw [hz] at hvalue hleading
  rw [digitsValue_append_zeros] at hvalue
  have hne : digits ≠ [] := by
    rintro rfl
    exact h.ne ((Nat.zero_mul _).symm.trans hvalue)
  have hhead := hleading.head
  rw [List.head?_append_of_ne_nil _ hne] at hhead
  refine ⟨⟨fun c hc => hleading.digit c (List.mem_append_left _ hc), hne, hhead⟩, z, ?_, hvalue⟩
  rw [hz, List.length_append, List.length_replicate]

/-- A numeral for digits of which the first counts a given power of ten. -/
structure Spelling.Says (s : Spelling) (digits : List Char) (top : Int) : Prop where
  valid : s.Valid
  value : (digitsValue (s.whole ++ s.fraction) : ℚ) *
      10 ^ (s.exponent.getD 0 - (s.fraction.length : Int)) =
    digitsValue digits * 10 ^ (top + 1 - (digits.length : Int))

namespace IsLeading

variable {digits : List Char} (h : IsLeading digits) {top : Int}
include h

theorem says_small (htop : top < 0) :
    Spelling.Says ⟨['0'], List.replicate (-top - 1).toNat '0' ++ digits, none⟩ digits top where
  valid.whole := .inl rfl
  valid.fraction c hc := (List.mem_append.mp hc).elim isDigit_zeros (h.digit c)
  valid.double := .inl (List.append_ne_nil_of_right_ne_nil _ h.ne_nil)
  value := by
    have hzero : digitsValue (['0'] ++ (List.replicate (-top - 1).toNat '0' ++ digits)) =
        digitsValue digits := by
      have hone : ['0'] = List.replicate 1 '0' := rfl
      rw [hone, digitsValue_zeros_append, digitsValue_zeros_append]
    have hexponent : (Option.getD none 0 : Int) -
        (List.replicate (-top - 1).toNat '0' ++ digits).length = top + 1 - digits.length := by
      rw [List.length_append, List.length_replicate, Option.getD_none]
      omega
    dsimp only
    rw [hzero, hexponent]

theorem says_whole {k : Nat} (hk : (k : Int) = top + 1 - digits.length) :
    Spelling.Says ⟨digits ++ List.replicate k '0', ['0'], none⟩ digits top where
  valid.whole := .inr (h.append fun _ => isDigit_zeros)
  valid.fraction := List.forall_mem_singleton.mpr rfl
  valid.double := .inl (List.cons_ne_nil _ _)
  value := by
    have hlast : digitsValue ['0'] = 0 := rfl
    dsimp only
    rw [digitsValue_append, digitsValue_append_zeros, hlast, ← hk, zpow_natCast]
    push_cast
    norm_num
    ring

theorem says_point {k : Nat} (hk : (k : Int) = top + 1) (hpos : 0 < k) (hlt : k < digits.length) :
    Spelling.Says ⟨digits.take k, digits.drop k, none⟩ digits top where
  valid.whole := by
    obtain ⟨c, tail, rfl⟩ := List.exists_cons_of_ne_nil h.ne_nil
    obtain ⟨k, rfl⟩ := Nat.exists_eq_succ_of_ne_zero hpos.ne'
    exact .inr ⟨fun d hd => h.digit d (List.mem_of_mem_take hd), List.cons_ne_nil _ _, h.head⟩
  valid.fraction c hc := h.digit c (List.mem_of_mem_drop hc)
  valid.double := .inl (by simpa using hlt)
  value := by
    have hexponent : (Option.getD none 0 : Int) - (digits.drop k).length =
        top + 1 - digits.length := by
      rw [List.length_drop, Option.getD_none]
      omega
    dsimp only
    rw [List.take_append_drop, hexponent]

theorem says_scientific {first : Char} {rest : List Char} (hdigits : digits = first :: rest) :
    Spelling.Says ⟨[first], rest, some top⟩ digits top where
  valid.whole := by
    subst hdigits
    exact .inr ⟨List.forall_mem_singleton.mpr (h.digit first List.mem_cons_self),
      List.cons_ne_nil _ _, h.head⟩
  valid.fraction c hc := h.digit c (hdigits ▸ List.mem_cons_of_mem first hc)
  valid.double := .inr rfl
  value := by
    have hexponent : (Option.getD (some top) 0 : Int) - rest.length =
        top + 1 - (first :: rest).length := by
      rw [List.length_cons, Option.getD_some]
      omega
    subst hdigits
    dsimp only
    rw [hexponent, List.singleton_append]

end IsLeading

/-- Positional and scientific notation say the same value, with a digit on each side of the
point. -/
theorem Digits.exists_spelling {d : Digits} (h : 0 < d.coefficient) :
    ∃ s : Spelling, d.text = s.chars ∧ s.Valid ∧ ∀ negative,
      (s.decimal negative).magnitude.value = d.ratio.value := by
  obtain ⟨hdigits, z, hlength, hvalue⟩ := dropTrailingZeros_decimalDigits h
  suffices hsays : ∃ s : Spelling, d.text = s.chars ∧
      s.Says (dropTrailingZeros (decimalDigits d.coefficient))
        (d.exponent + (decimalDigits d.coefficient).length - 1) by
    obtain ⟨s, htext, hsays⟩ := hsays
    refine ⟨s, htext, hsays.valid, ?_⟩
    intro negative
    have hpower : d.exponent + ((decimalDigits d.coefficient).length : Int) - 1 + 1 -
        (dropTrailingZeros (decimalDigits d.coefficient)).length = z + d.exponent := by
      omega
    have hcoefficient : (d.coefficient : ℚ) =
        digitsValue (dropTrailingZeros (decimalDigits d.coefficient)) * 10 ^ z := by
      exact_mod_cast hvalue.symm
    have hsame := hsays.value
    rw [hpower, zpow_add₀ (by norm_num), zpow_natCast, ← mul_assoc, ← hcoefficient] at hsame
    rw [Decimal.magnitude, ratio, Ratio.value_scale (by decide), Ratio.value_scale (by decide),
      Ratio.value_ofNat, Ratio.value_ofNat]
    exact hsame
  unfold text
  dsimp only
  generalize dropTrailingZeros (decimalDigits d.coefficient) = digits at *
  generalize d.exponent + ((decimalDigits d.coefficient).length : Int) - 1 = top
  split
  · split
    next htop =>
      refine ⟨_, ?_, hdigits.says_small htop⟩
      simp [Spelling.chars, hdigits.ne_nil]
    next htop =>
      split
      next hfits =>
        refine ⟨_, ?_, hdigits.says_whole (k := top.toNat + 1 - digits.length) (by omega)⟩
        simp [Spelling.chars]
      next hlong =>
        refine ⟨_, ?_, hdigits.says_point (k := top.toNat + 1) (by omega) (by omega) (by omega)⟩
        have hsplit : digits.length - (digits.length - (top.toNat + 1)) = top.toNat + 1 := by omega
        have hne : (digits.drop (top.toNat + 1)).isEmpty = false := by simpa using hlong
        simp [Spelling.chars, withPoint, hsplit, hne]
  · obtain ⟨first, rest, rfl⟩ := List.exists_cons_of_ne_nil hdigits.ne_nil
    refine ⟨_, ?_, hdigits.says_scientific rfl⟩
    cases rest with
    | nil => rfl
    | cons second rest => rfl

/-- The value written out in full is the value. -/
theorem Dyadic.value_allDigits (d : Dyadic) : d.allDigits.ratio.value = d.magnitude.value := by
  rw [Digits.value_ratio, value_magnitude]
  unfold allDigits
  split
  next hexponent =>
    obtain ⟨k, hk⟩ := Int.eq_ofNat_of_zero_le hexponent
    have hnum : d.magnitude.num = d.significand * 2 ^ k := by
      rw [magnitude, hk]
      rfl
    dsimp only
    rw [hnum, hk, zpow_zero, mul_one, zpow_natCast]
    push_cast
    rfl
  next hexponent =>
    obtain ⟨k, hk⟩ := Int.eq_ofNat_of_zero_le (Int.neg_nonneg_of_nonpos (not_le.mp hexponent).le)
    have hexponent : d.exponent = -(k : Int) := by omega
    dsimp only
    rw [hk, hexponent, zpow_neg, zpow_neg, zpow_natCast, zpow_natCast, Int.toNat_natCast]
    have hten : (10 : ℚ) ^ k = 2 ^ k * 5 ^ k := by rw [← mul_pow]; norm_num
    have hfive : ((d.significand * Nat.pow 5 k : Nat) : ℚ) = d.significand * 5 ^ k := by
      change ((d.significand * 5 ^ k : Nat) : ℚ) = _
      push_cast
      rfl
    rw [hten, hfive]
    field_simp

theorem Digits.den_ratio_pos (d : Digits) : 0 < d.ratio.den :=
  Ratio.den_scale_pos (by decide) _ Nat.one_pos

/-- The shortest digits read back, and so does the value written out in full where none of them
do. -/
theorem Dyadic.nearestBits_shortest (d : Dyadic) :
    nearestBits d.shortest.ratio = nearestBits d.magnitude := by
  unfold shortest
  dsimp only
  generalize hfound : (List.range maxShortest).findSome? _ = found
  cases found with
  | none =>
    exact nearestBits_congr d.allDigits.den_ratio_pos d.den_magnitude_pos d.value_allDigits
  | some digits =>
    obtain ⟨count, -, hcount⟩ := List.exists_of_findSome?_eq_some hfound
    have hreads : digits.readsAs (nearestBits d.magnitude) = true :=
      List.find?_some (p := fun e : Digits => e.readsAs (nearestBits d.magnitude)) hcount
    exact beq_iff_eq.mp hreads

theorem Dyadic.coefficient_shortest_pos {d : Dyadic} (hd : d.Normal) (hpos : 0 < d.significand) :
    0 < d.shortest.coefficient := by
  have hbits : 0 < nearestBits d.shortest.ratio := by
    rw [nearestBits_shortest, nearestBits_magnitude hd]
    exact lt_min (Nat.add_pos_left hpos _) (by decide)
  apply Nat.pos_of_ne_zero
  intro hzero
  have hnum : d.shortest.ratio.num = 0 := by
    rw [Digits.ratio, hzero]
    exact Nat.zero_mul _
  rw [nearestBits, if_pos hnum] at hbits
  exact lt_irrefl 0 hbits

/-- A finite double is spelled so that it is the double nearest to the spelling. -/
theorem exists_spelling {x : Float} {d : Dyadic} (hx : decode x = .finite d) :
    ∃ s : Spelling, fileDouble x = signed d.negative s.chars ∧ s.Valid ∧
      (s.decimal d.negative).toDouble = x := by
  have hshortest : fileDouble x =
      signed d.negative (if d.significand == 0 then ['0', '.', '0'] else d.shortest.text) := by
    unfold fileDouble shortest
    rw [hx]
  have hown := ofRatio_magnitude hx
  rw [hshortest]
  rcases Nat.eq_zero_or_pos d.significand with hzero | hpos
  · have hvalid : Spelling.Valid ⟨['0'], ['0'], none⟩ :=
      ⟨.inl rfl, List.forall_mem_singleton.mpr rfl, .inl (List.cons_ne_nil _ _)⟩
    refine ⟨⟨['0'], ['0'], none⟩, by rw [hzero]; rfl, hvalid, ?_⟩
    rw [← hown, ofRatio, Dyadic.nearestBits_of_zero hzero]
    rfl
  · have hnormal : d.Normal := (of_decodeBits hx).2.1
    have hne : ¬ (d.significand == 0) = true := by simpa using hpos.ne'
    obtain ⟨s, htext, hvalid, hvalue⟩ :=
      Digits.exists_spelling (Dyadic.coefficient_shortest_pos hnormal hpos)
    refine ⟨s, by rw [if_neg hne, htext], hvalid, ?_⟩
    have hbits : nearestBits (s.decimal d.negative).magnitude = nearestBits d.magnitude := by
      rw [← d.nearestBits_shortest]
      exact nearestBits_congr (Ratio.den_scale_pos (by decide) _ Nat.one_pos)
        d.shortest.den_ratio_pos (hvalue d.negative)
    rw [Decimal.toDouble_eq, ofRatio, hbits]
    exact hown

end Number
end Waterjet
