import Waterjet.Estimate.Clock
import Waterjet.Estimate.CutTime
import Waterjet.Proofs.Doubles

/-! Where arithmetic can fail. Doubles alone never do until one of them has to become an integer,
and an integer beside them fails only if it is too large for a double. -/
namespace Waterjet
open Number

section Results

variable {ε β γ : Type}

/-- Two steps went well if the first did and then the second did. -/
theorem bind_eq_ok_iff {x : Except ε β} {f : β → Except ε γ} {c : γ} :
    (x >>= f) = .ok c ↔ ∃ b, x = .ok b ∧ f b = .ok c := by
  cases x with
  | error e => simp [bind, Except.bind]
  | ok b => simp [bind, Except.bind]

theorem bind_eq_error_iff {x : Except ε β} {f : β → Except ε γ} {e : ε} :
    (x >>= f) = .error e ↔ x = .error e ∨ ∃ b, x = .ok b ∧ f b = .error e := by
  cases x with
  | error e => simp [bind, Except.bind]
  | ok b => simp [bind, Except.bind]

/-- A step that only checks has nothing to hand on. -/
theorem check_bind_eq_ok_iff {x : Except ε Unit} {f : Unit → Except ε γ} {c : γ} :
    (x >>= f) = .ok c ↔ x = .ok () ∧ f () = .ok c := by
  cases x with
  | error e => simp [bind, Except.bind]
  | ok b => simp [bind, Except.bind]

theorem exists_bind_eq_ok_iff {x : Except ε β} {f : β → Except ε γ} :
    (∃ c, (x >>= f) = .ok c) ↔ ∃ b, x = .ok b ∧ ∃ c, f b = .ok c := by
  cases x with
  | error e => simp [bind, Except.bind]
  | ok b => simp [bind, Except.bind]

theorem map_eq_ok_iff {x : Except ε β} {f : β → γ} {c : γ} :
    x.map f = .ok c ↔ ∃ b, x = .ok b ∧ f b = c := by
  cases x <;> simp [Except.map]

theorem mapError_eq_ok_iff {x : Except ε β} {f : ε → γ} {b : β} :
    x.mapError f = .ok b ↔ x = .ok b := by
  cases x <;> simp [Except.mapError]

theorem mapError_eq_error_iff {x : Except ε β} {f : ε → γ} {c : γ} :
    x.mapError f = .error c ↔ ∃ e, x = .error e ∧ f e = c := by
  cases x <;> simp [Except.mapError]

theorem exists_map_eq_ok_iff {x : Except ε β} {f : β → γ} :
    (∃ c, x.map f = .ok c) ↔ ∃ b, x = .ok b := by
  cases x <;> simp [Except.map]

theorem exists_eq_ok_of_toBool {x : Except ε β} (h : x.toBool = true) : ∃ b, x = .ok b := by
  cases x with
  | error e => cases h
  | ok b => exact ⟨b, rfl⟩

/-- A step for what may be there goes well unless it is there and the step fails. -/
theorem exists_mapM_toList_iff {o : Option β} {f : β → Except ε γ} :
    (∃ cs, o.toList.mapM f = .ok cs) ↔ ∀ b, o = some b → ∃ c, f b = .ok c := by
  cases o with
  | none => exact iff_of_true ⟨[], rfl⟩ nofun
  | some b =>
    rw [Option.toList_some, List.mapM_cons, exists_bind_eq_ok_iff]
    constructor
    · rintro ⟨c, hc, -⟩ _ ⟨⟩
      exact ⟨c, hc⟩
    · intro h
      obtain ⟨c, hc⟩ := h b rfl
      exact ⟨c, hc, [c], rfl⟩

end Results

/-- Only finite doubles have an integer below them. -/
theorem Number.exists_floor?_iff (x : Float) : (∃ n, floor? x = .ok n) ↔ x.isFinite = true := by
  rw [isFinite_iff]
  unfold floor?
  cases decode x <;> simp

namespace Clock

variable [Host]

/-- A duration whose seconds can be counted: rounding them ends in an integer. -/
def isCountable (minutes : Float) : Bool :=
  (minutes * ((60 : Nat) : Float) + Scalar.half).isFinite

theorem exists_formatQuantity?_iff (minutes : Float) :
    (∃ text, formatQuantity? (.double minutes) = .ok text) ↔ isCountable minutes = true := by
  have hformat : formatQuantity? (.double minutes) =
      (floor? (minutes * ((60 : Nat) : Float) + Scalar.half)).map text := rfl
  rw [hformat, exists_map_eq_ok_iff]
  exact exists_floor?_iff _

end Clock

theorem Parameter.eq_of_number? {p : Parameter} {v : Value} {q : Quantity}
    (h : p.number? v = .ok q) : v = .number q := by
  cases v with
  | number q' =>
    cases h
    rfl
  | _ => cases h

theorem Parameter.of_checkPositive {p : Parameter} {q : Quantity} {u : Unit}
    (h : p.checkPositive q = .ok u) : q.isNonpositive = false := by
  unfold checkPositive at h
  split at h
  · cases h
  next hpositive => exact Bool.eq_false_iff.mpr hpositive

namespace Inputs

/-- Among doubles only the number of pierces is still to be converted. -/
theorem breakdown?_of_doubles (n : Int) (time length : Float) {speed : Float}
    (hspeed : Quantity.isNonpositive (.double speed) = false) :
    breakdown? ⟨.integer n, .double time, .double length, .double speed⟩ =
      (doubleOfInt? n).map fun k =>
        ⟨.double (k * time), .double (length / speed), .double (k * time + length / speed)⟩ := by
  -- Zero is not positive, but what is not a number passes for a speed and divides.
  have hzero : (speed == 0.0) = false := beq_eq_false_of_not_le (of_decide_eq_false hspeed)
  have hdiv : Quantity.div? (.double length) (.double speed) =
      .ok (.double (length / speed)) := if_neg (Bool.eq_false_iff.mp hzero)
  unfold breakdown?
  rw [hdiv]
  change ((do
    let x ← doubleOfInt? n
    Except.ok (Quantity.double (x * time))) >>= _) = _
  cases doubleOfInt? n <;> rfl

/-- Numbers as inputs that a caller may give. -/
def asGiven (inputs : Inputs Quantity) : Inputs Value where
  pierceCount := .number inputs.pierceCount
  pierceTime := .number inputs.pierceTime
  perimeter := .number inputs.perimeter
  speed := .number inputs.speed

theorem eq_asGiven_of_numbers? {given : Inputs Value} {inputs : Inputs Quantity}
    (h : given.numbers? = .ok inputs) : given = inputs.asGiven := by
  obtain ⟨count, hcount, h⟩ := bind_eq_ok_iff.mp h
  obtain ⟨time, htime, h⟩ := bind_eq_ok_iff.mp h
  obtain ⟨length, hlength, h⟩ := bind_eq_ok_iff.mp h
  obtain ⟨speed, hspeed, h⟩ := bind_eq_ok_iff.mp h
  cases h
  rw [asGiven, ← Parameter.eq_of_number? hcount, ← Parameter.eq_of_number? htime,
    ← Parameter.eq_of_number? hlength, ← Parameter.eq_of_number? hspeed]

/-- Inputs that pass are numbers, and the speed is positive or not a number. -/
theorem of_validate? {given : Inputs Value} {q : Inputs Quantity} (h : given.validate? = .ok q) :
    given = q.asGiven ∧ q.speed.isNonpositive = false := by
  obtain ⟨numbers, hnumbers, h⟩ := bind_eq_ok_iff.mp h
  obtain ⟨_, hsigns, h⟩ := bind_eq_ok_iff.mp h
  cases h
  obtain ⟨_, -, hsigns⟩ := bind_eq_ok_iff.mp hsigns
  obtain ⟨_, -, hsigns⟩ := bind_eq_ok_iff.mp hsigns
  obtain ⟨_, -, hsigns⟩ := bind_eq_ok_iff.mp hsigns
  exact ⟨eq_asGiven_of_numbers? hnumbers, Parameter.of_checkPositive hsigns⟩

end Inputs

namespace Calculation

/-- Only a check can refuse inputs as invalid. -/
theorem make?_eq_invalid_iff {given : Inputs Value} {i : InvalidInput} :
    make? given = .error (.invalid i) ↔ given.validate? = .error i := by
  unfold make?
  simp [bind_eq_error_iff, mapError_eq_error_iff, pure, Except.pure]

/-- Only the formula can fail in arithmetic, on inputs that pass. -/
theorem make?_eq_arithmetic_iff {given : Inputs Value} {f : Fault} :
    make? given = .error (.arithmetic f) ↔
      ∃ q, given.validate? = .ok q ∧ q.breakdown? = .error f := by
  unfold make?
  simp [bind_eq_error_iff, mapError_eq_error_iff, mapError_eq_ok_iff, pure, Except.pure]

/-- The calculation with `n` pierces, which is `k` as a double, and doubles throughout. -/
def ofDoubles (n : Int) (k time length speed : Float) : Calculation where
  inputs := ⟨.integer n, .double time, .double length, .double speed⟩
  breakdown :=
    ⟨.double (k * time), .double (length / speed), .double (k * time + length / speed)⟩

theorem make?_of_doubles {given : Inputs Value} {n : Int} {time length speed : Float}
    (h : given.validate? = .ok ⟨.integer n, .double time, .double length, .double speed⟩) :
    make? given = ((doubleOfInt? n).mapError .arithmetic).map fun k =>
      ofDoubles n k time length speed := by
  have hspeed : Quantity.isNonpositive (.double speed) = false := (Inputs.of_validate? h).2
  unfold make?
  rw [h]
  change ((Except.mapError _ (Inputs.breakdown? _)) >>= _) = _
  rw [Inputs.breakdown?_of_doubles n time length hspeed]
  cases doubleOfInt? n <;> rfl

end Calculation

end Waterjet
