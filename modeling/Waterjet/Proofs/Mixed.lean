import Waterjet.Proofs.Faults
import Waterjet.Proofs.Magnitudes

/-! Arithmetic between integers and doubles, as what it gives and when it fails. Two integers stay
exact but for their quotient, which is rounded once; an integer beside a double is rounded first.
Nothing fails without an integer, and with one only for want of a finite double. -/
namespace Waterjet.Number

/-- An integer has a double if its nearest one is finite, and that is the double. -/
theorem doubleOfInt?_eq_ok_iff {n : Int} {x : Float} :
    doubleOfInt? n = .ok x ↔
      n.natAbs < overflowBound ∧ x = ofRatio (decide (n < 0)) (.ofNat n.natAbs) := by
  have hbits : nearestBits (.ofNat n.natAbs) < infinityBits ↔ n.natAbs < overflowBound := by
    rw [nearestBits_lt_iff Nat.one_pos, Ratio.value_ofNat, Nat.cast_lt]
  rw [← hbits]
  unfold doubleOfInt?
  dsimp only
  split
  next hlt =>
    rw [and_iff_right hlt, Except.ok.injEq, eq_comm]
    rfl
  next hge => exact iff_of_false nofun fun h => hge h.1

theorem eq_integerTooLarge_of_doubleOfInt? {n : Int} {f : Fault} (h : doubleOfInt? n = .error f) :
    f = .integerTooLarge := by
  unfold doubleOfInt? at h
  dsimp only at h
  split at h <;> cases h
  rfl

/-- A positive integer is not rounded to zero. -/
theorem pos_ofRatio_ofNat {n : Nat} (h : 0 < n) : 0 < ofRatio false (.ofNat n) := by
  have hunit : (2 : ℚ) ^ minExponent < 2 * (Ratio.ofNat n).value := by
    have hone : (1 : ℚ) ≤ n := Nat.one_le_cast.mpr h
    have hsmall : (2 : ℚ) ^ minExponent ≤ 1 := zpow_le_one_of_nonpos₀ one_le_two (by decide)
    rw [Ratio.value_ofNat]
    linarith
  exact (IsAtLeast.ofRatio (nearestBits_pos Nat.one_pos hunit)).pos

namespace Quantity

def isInteger : Quantity → Bool
  | .integer _ => true
  | .double _ => false

theorem exists_integer {a : Quantity} (h : a.isInteger = true) : ∃ n, a = .integer n := by
  cases a with
  | integer n => exact ⟨n, rfl⟩
  | double x => cases h

/-- The double that a number is beside another double. -/
inductive RoundsTo : Quantity → Float → Prop where
  | integer (n : Int) (h : n.natAbs < overflowBound) :
    RoundsTo (.integer n) (ofRatio (decide (n < 0)) (.ofNat n.natAbs))
  | double (x : Float) : RoundsTo (.double x) x

/-- Exact on two integers, otherwise on doubles. -/
inductive CombinesTo (exact : Int → Int → Int) (rounded : Float → Float → Float) :
    Quantity → Quantity → Quantity → Prop where
  | integers (m n : Int) :
    CombinesTo exact rounded (.integer m) (.integer n) (.integer (exact m n))
  | doubles {a b : Quantity} {x y : Float} (h : (a.isInteger && b.isInteger) = false)
    (ha : a.RoundsTo x) (hb : b.RoundsTo y) : CombinesTo exact rounded a b (.double (rounded x y))

/-- The quotient of two integers is rounded once, by itself. -/
inductive DividesTo : Quantity → Quantity → Quantity → Prop where
  | integers (m n : Int) (h : m.natAbs < overflowBound * n.natAbs) :
    DividesTo (.integer m) (.integer n)
      (.double (ofRatio (decide (m < 0) != decide (n < 0)) ⟨m.natAbs, n.natAbs⟩))
  | doubles {a b : Quantity} {x y : Float} (h : (a.isInteger && b.isInteger) = false)
    (ha : a.RoundsTo x) (hb : b.RoundsTo y) : DividesTo a b (.double (x / y))

variable {a b c : Quantity} {f : Fault} {exact : Int → Int → Int} {rounded : Float → Float → Float}

theorem toDouble?_eq_ok_iff {x : Float} : a.toDouble? = .ok x ↔ a.RoundsTo x := by
  cases a with
  | integer n =>
    refine doubleOfInt?_eq_ok_iff.trans ⟨?_, ?_⟩
    · rintro ⟨h, rfl⟩
      exact .integer n h
    · rintro ⟨⟩
      exact ⟨‹_›, rfl⟩
  | double y =>
    constructor
    · intro h
      cases h
      exact .double _
    · intro h
      cases h
      rfl

theorem of_toDouble?_eq_error (h : a.toDouble? = .error f) :
    f = .integerTooLarge ∧ a.isInteger = true := by
  cases a with
  | integer n => exact ⟨eq_integerTooLarge_of_doubleOfInt? h, rfl⟩
  | double x => cases h

section Doubles

variable (h : (a.isInteger && b.isInteger) = false)
include h

theorem combine?_of_double : combine? exact rounded a b =
    a.toDouble? >>= fun x => b.toDouble? >>= fun y => .ok (.double (rounded x y)) := by
  cases a with
  | integer m =>
    cases b with
    | integer n => cases h
    | double y => rfl
  | double x => rfl

theorem div?_of_double : a.div? b = a.toDouble? >>= fun x => b.toDouble? >>= fun y =>
    if y == 0.0 then .error .doubleDivisionByZero else .ok (.double (x / y)) := by
  cases a with
  | integer m =>
    cases b with
    | integer n => cases h
    | double y => rfl
  | double x => rfl

end Doubles

theorem exists_integers (h : (a.isInteger && b.isInteger) = true) :
    ∃ m n, a = .integer m ∧ b = .integer n := by
  obtain ⟨ha, hb⟩ := (Bool.and_eq_true _ _).mp h
  obtain ⟨m, rfl⟩ := exists_integer ha
  obtain ⟨n, rfl⟩ := exists_integer hb
  exact ⟨m, n, rfl, rfl⟩

theorem combine?_eq_ok_iff :
    combine? exact rounded a b = .ok c ↔ CombinesTo exact rounded a b c := by
  cases h : a.isInteger && b.isInteger with
  | true =>
    obtain ⟨m, n, rfl, rfl⟩ := exists_integers h
    constructor
    · intro hc
      cases hc
      exact .integers m n
    · intro hc
      cases hc with
      | integers => rfl
      | doubles h' => cases h'
  | false =>
    rw [combine?_of_double h]
    simp only [bind_eq_ok_iff, toDouble?_eq_ok_iff]
    constructor
    · rintro ⟨x, hx, y, hy, hc⟩
      cases hc
      exact .doubles h hx hy
    · intro hc
      cases hc with
      | integers => cases h
      | doubles _ hx hy => exact ⟨_, hx, _, hy, rfl⟩

theorem of_combine?_eq_error (h : combine? exact rounded a b = .error f) :
    f = .integerTooLarge ∧ (a.isInteger || b.isInteger) = true := by
  cases hab : a.isInteger && b.isInteger with
  | true =>
    obtain ⟨m, n, rfl, rfl⟩ := exists_integers hab
    cases h
  | false =>
    rw [combine?_of_double hab] at h
    obtain hx | ⟨x, -, h⟩ := bind_eq_error_iff.mp h
    · obtain ⟨hf, ha⟩ := of_toDouble?_eq_error hx
      exact ⟨hf, by rw [ha, Bool.true_or]⟩
    obtain hy | ⟨y, -, h⟩ := bind_eq_error_iff.mp h
    · obtain ⟨hf, hb⟩ := of_toDouble?_eq_error hy
      exact ⟨hf, by rw [hb, Bool.or_true]⟩
    · cases h

theorem divideIntegers?_eq (m : Int) {n : Int} (hn : 0 < n) :
    divideIntegers? m n =
      if m.natAbs < overflowBound * n.natAbs then
        .ok (ofRatio (decide (m < 0) != decide (n < 0)) ⟨m.natAbs, n.natAbs⟩)
      else .error .quotientTooLarge := by
  have hbits : nearestBits ⟨m.natAbs, n.natAbs⟩ < infinityBits ↔
      m.natAbs < overflowBound * n.natAbs := by
    have hden : (0 : ℚ) < n.natAbs := by exact_mod_cast Int.natAbs_pos.mpr hn.ne'
    rw [nearestBits_lt_iff (Int.natAbs_pos.mpr hn.ne'), Ratio.value, div_lt_iff₀ hden]
    exact_mod_cast Iff.rfl
  unfold divideIntegers?
  rw [if_neg hn.ne']
  simp only [hbits]
  rfl

section Division

variable (hb : b.isNonpositive = false)
include hb

/-- A divisor that is not refused is not zero, as an integer, as a double, or rounded to one. -/
theorem RoundsTo.beq_zero {y : Float} (hy : b.RoundsTo y) : (y == 0.0) = false := by
  apply beq_eq_false_of_not_le
  cases hy with
  | integer n h =>
    have hpos : 0 < n := by simpa [isNonpositive] using hb
    have hnegative : decide (n < 0) = false := decide_eq_false (by omega)
    have hzero : (0.0 : Float).isNaN = false := by decide
    rw [hnegative]
    intro hle
    exact not_lt_of_le (isNaN_of_le hle) hzero hle (pos_ofRatio_ofNat (by omega))
  | double y => exact of_decide_eq_false hb

theorem div?_eq_ok_iff : a.div? b = .ok c ↔ DividesTo a b c := by
  cases h : a.isInteger && b.isInteger with
  | true =>
    obtain ⟨m, n, rfl, rfl⟩ := exists_integers h
    have hn : 0 < n := by simpa [isNonpositive] using hb
    have hdiv : div? (.integer m) (.integer n) = (divideIntegers? m n).map .double := rfl
    rw [hdiv, divideIntegers?_eq m hn, map_eq_ok_iff]
    constructor
    · rintro ⟨x, hx, rfl⟩
      split at hx
      next hlt =>
        cases hx
        exact .integers m n hlt
      next => cases hx
    · intro hc
      cases hc with
      | integers _ _ hlt => exact ⟨_, if_pos hlt, rfl⟩
      | doubles h' => cases h'
  | false =>
    rw [div?_of_double h]
    simp only [bind_eq_ok_iff, toDouble?_eq_ok_iff]
    constructor
    · rintro ⟨x, hx, y, hy, hc⟩
      rw [RoundsTo.beq_zero hb hy, if_neg Bool.false_ne_true] at hc
      cases hc
      exact .doubles h hx hy
    · intro hc
      cases hc with
      | integers => cases h
      | doubles _ hx hy =>
        refine ⟨_, hx, _, hy, ?_⟩
        rw [RoundsTo.beq_zero hb hy, if_neg Bool.false_ne_true]

theorem of_div?_eq_error (h : a.div? b = .error f) :
    (f = .integerTooLarge ∨ f = .quotientTooLarge) ∧ (a.isInteger || b.isInteger) = true := by
  cases hab : a.isInteger && b.isInteger with
  | true =>
    obtain ⟨m, n, rfl, rfl⟩ := exists_integers hab
    have hn : 0 < n := by simpa [isNonpositive] using hb
    have hdiv : div? (.integer m) (.integer n) = (divideIntegers? m n).map .double := rfl
    rw [hdiv, divideIntegers?_eq m hn] at h
    split at h
    · cases h
    · cases h
      exact ⟨.inr rfl, rfl⟩
  | false =>
    rw [div?_of_double hab] at h
    obtain hx | ⟨x, -, h⟩ := bind_eq_error_iff.mp h
    · obtain ⟨hf, ha⟩ := of_toDouble?_eq_error hx
      exact ⟨.inl hf, by rw [ha, Bool.true_or]⟩
    obtain hy | ⟨y, hy, h⟩ := bind_eq_error_iff.mp h
    · obtain ⟨hf, hb⟩ := of_toDouble?_eq_error hy
      exact ⟨.inl hf, by rw [hb, Bool.or_true]⟩
    · rw [RoundsTo.beq_zero hb (toDouble?_eq_ok_iff.mp hy), if_neg Bool.false_ne_true] at h
      cases h

end Division

/-- A sum of integers or doubles is an integer only if both are. -/
theorem CombinesTo.isInteger_eq (h : CombinesTo exact rounded a b c) :
    c.isInteger = (a.isInteger && b.isInteger) := by
  cases h with
  | integers m n => rfl
  | doubles h => exact h.symm

theorem DividesTo.isInteger_eq (h : DividesTo a b c) : c.isInteger = false := by
  cases h <;> rfl

end Quantity

end Waterjet.Number
