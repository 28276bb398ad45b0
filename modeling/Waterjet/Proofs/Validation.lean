import Waterjet.Proofs.Mixed

/-! What stands between a caller and the formula. The faults of given inputs have an order, all
kinds before any sign, and the first of them is the answer. Inputs without a fault are numbers that
the formula can take: it divides by nothing that is zero, and it fails only for want of a double
that an integer could become. -/
namespace Waterjet
open Number

section Results

variable {ε β γ : Type}

/-- The error of a result, if it is one. -/
def errorOf? : Except ε β → Option ε
  | .error e => some e
  | .ok _ => none

theorem errorOf?_eq_some_iff {x : Except ε β} {e : ε} : errorOf? x = some e ↔ x = .error e := by
  cases x <;> simp [errorOf?]

theorem errorOf?_eq_none_iff {x : Except ε β} : errorOf? x = none ↔ ∃ b, x = .ok b := by
  cases x <;> simp [errorOf?]

/-- Of steps that do not depend on each other the first error counts. -/
theorem errorOf?_bind {x : Except ε β} {f : β → Except ε γ} {o : Option ε}
    (h : ∀ b, x = .ok b → errorOf? (f b) = o) : errorOf? (x >>= f) = (errorOf? x).or o := by
  cases x with
  | error e => rfl
  | ok b => exact h b rfl

theorem findSome?_cons_or (f : β → Option γ) (a : β) (l : List β) :
    (a :: l).findSome? f = (f a).or (l.findSome? f) := by
  rw [List.findSome?_cons]
  cases f a <;> rfl

end Results

def Value.isNumber : Value → Bool
  | .number _ => true
  | _ => false

namespace Parameter

/-- The parameters in the order in which they are given and checked. -/
def all : List Parameter := [.pierceCount, .pierceTime, .perimeter, .speed]

def kindFault? (p : Parameter) (v : Value) : Option InvalidInput :=
  if v.isNumber then none else some (.notNumber p v)

/-- Only the speed must be above zero. -/
def signFault? (p : Parameter) : Value → Option InvalidInput
  | .number q =>
    if p = .speed then if q.isNonpositive then some (.notPositive p q) else none
    else if q.isNegative then some (.negative p q) else none
  | _ => none

theorem errorOf?_number? (p : Parameter) (v : Value) :
    errorOf? (p.number? v) = p.kindFault? v := by
  cases v <;> rfl

theorem errorOf?_checkNonnegative (p : Parameter) (h : p ≠ .speed) (q : Quantity) :
    errorOf? (p.checkNonnegative q) = p.signFault? (.number q) := by
  unfold checkNonnegative signFault?
  dsimp only
  rw [if_neg h]
  split <;> rfl

theorem errorOf?_checkPositive (q : Quantity) :
    errorOf? (Parameter.speed.checkPositive q) = Parameter.speed.signFault? (.number q) := by
  unfold checkPositive signFault?
  dsimp only
  rw [if_pos rfl]
  split <;> rfl

end Parameter

namespace InvalidInput

/-- The parameter that is refused. -/
def parameter : InvalidInput → Parameter
  | .notNumber p _ => p
  | .negative p _ => p
  | .notPositive p _ => p

/-- What is asked of it. -/
def requirement : InvalidInput → String
  | .notNumber _ _ => "a number"
  | .negative _ _ => ">= 0"
  | .notPositive _ _ => "> 0"

/-- What was given for it. -/
def given : InvalidInput → Value
  | .notNumber _ v => v
  | .negative _ q => .number q
  | .notPositive _ q => .number q

theorem message_eq (i : InvalidInput) :
    i.message = s!"{i.parameter.name} must be {i.requirement}, got {i.given.shown}" := by
  have hjoin (a b c d : String) (h : " must be " ++ b ++ ", got " = c) :
      a ++ " must be " ++ b ++ ", got " ++ d = a ++ c ++ d := by
    rw [← h]
    simp only [String.append_assoc]
  cases i <;> exact (hjoin _ _ _ _ (by rfl)).symm

end InvalidInput

namespace Inputs

def value {ν : Type} (given : Inputs ν) : Parameter → ν
  | .pierceCount => given.pierceCount
  | .pierceTime => given.pierceTime
  | .perimeter => given.perimeter
  | .speed => given.speed

/-- All that is wrong with given inputs: kinds first, then signs. -/
def faults (given : Inputs Value) : List InvalidInput :=
  Parameter.all.filterMap (fun p => p.kindFault? (given.value p)) ++
    Parameter.all.filterMap (fun p => p.signFault? (given.value p))

theorem errorOf?_numbers? (given : Inputs Value) :
    errorOf? given.numbers? = Parameter.all.findSome? fun p => p.kindFault? (given.value p) := by
  unfold numbers? Parameter.all
  simp only [findSome?_cons_or, List.findSome?_nil, ← Parameter.errorOf?_number?]
  refine errorOf?_bind fun _ _ => errorOf?_bind fun _ _ => ?_
  exact errorOf?_bind fun _ _ => errorOf?_bind fun _ _ => rfl

theorem errorOf?_checkSigns (inputs : Inputs Quantity) :
    errorOf? inputs.checkSigns =
      Parameter.all.findSome? fun p => p.signFault? (inputs.asGiven.value p) := by
  unfold checkSigns Parameter.all
  simp only [findSome?_cons_or, List.findSome?_nil, Option.or_none]
  rw [errorOf?_bind fun _ _ => errorOf?_bind fun _ _ => errorOf?_bind fun _ _ => rfl,
    Parameter.errorOf?_checkNonnegative .pierceCount (by decide),
    Parameter.errorOf?_checkNonnegative .pierceTime (by decide),
    Parameter.errorOf?_checkNonnegative .perimeter (by decide), Parameter.errorOf?_checkPositive]
  rfl

/-- Inputs are refused for their first fault. -/
theorem errorOf?_validate? (given : Inputs Value) :
    errorOf? given.validate? = given.faults.head? := by
  unfold faults validate?
  rw [List.head?_append, List.head?_filterMap, List.head?_filterMap, ← errorOf?_numbers?]
  refine errorOf?_bind fun inputs hinputs => ?_
  rw [eq_asGiven_of_numbers? hinputs, ← errorOf?_checkSigns,
    errorOf?_bind (o := none) fun _ _ => rfl, Option.or_none]

theorem validate?_eq_ok_iff {given : Inputs Value} {inputs : Inputs Quantity} :
    given.validate? = .ok inputs ↔ given = inputs.asGiven ∧ given.faults = [] := by
  rw [← List.head?_eq_none_iff, ← errorOf?_validate?, errorOf?_eq_none_iff]
  constructor
  · intro h
    refine ⟨?_, inputs, h⟩
    obtain ⟨numbers, hnumbers, h⟩ := bind_eq_ok_iff.mp h
    obtain ⟨_, -, h⟩ := bind_eq_ok_iff.mp h
    cases h
    exact eq_asGiven_of_numbers? hnumbers
  · rintro ⟨rfl, inputs', h⟩
    obtain ⟨_, hnumbers, h'⟩ := bind_eq_ok_iff.mp h
    obtain ⟨_, -, h'⟩ := bind_eq_ok_iff.mp h'
    cases hnumbers
    cases h'
    exact h

/-- Inputs have a fault exactly if one of them is no number, or is below zero, or is a speed that is
not above zero. -/
theorem faults_ne_nil_iff (given : Inputs Value) :
    given.faults ≠ [] ↔
      (∃ p, (given.value p).isNumber = false) ∨
      (∃ p ≠ .speed, ∃ q, given.value p = .number q ∧ q.isNegative = true) ∨
      ∃ q, given.speed = .number q ∧ q.isNonpositive = true := by
  have hall : ∀ p, p ∈ Parameter.all := by
    intro p
    cases p <;> decide
  have hsign (p : Parameter) : (∃ i, p.signFault? (given.value p) = some i) ↔
      ∃ q, given.value p = .number q ∧
        if p = .speed then q.isNonpositive = true else q.isNegative = true := by
    cases given.value p with
    | number q =>
      unfold Parameter.signFault?
      by_cases hp : p = .speed
      · simp [hp]
      · simp [hp]
    | _ => simp [Parameter.signFault?]
  have hkind (p : Parameter) : (∃ i, p.kindFault? (given.value p) = some i) ↔
      (given.value p).isNumber = false := by
    unfold Parameter.kindFault?
    cases (given.value p).isNumber <;> simp
  have hfault (f : Parameter → Option InvalidInput) :
      Parameter.all.filterMap f ≠ [] ↔ ∃ p i, f p = some i := by
    rw [ne_eq, List.filterMap_eq_nil_iff]
    simp [hall, Option.ne_none_iff_exists']
  unfold faults
  rw [ne_eq, List.append_eq_nil_iff, not_and_or, ← ne_eq, ← ne_eq, hfault, hfault]
  simp only [hkind, hsign]
  refine or_congr_right ⟨?_, ?_⟩
  · rintro ⟨p, q, hq, h⟩
    split at h
    next hp =>
      cases hp
      exact .inr ⟨q, hq, h⟩
    next hp => exact .inl ⟨p, hp, q, hq, h⟩
  · rintro (⟨p, hp, q, hq, h⟩ | ⟨q, hq, h⟩)
    · exact ⟨p, q, hq, by rwa [if_neg hp]⟩
    · exact ⟨.speed, q, hq, h⟩

/-- Where nothing is below zero the speed alone can be at fault. -/
theorem faults_of_nonnegative (inputs : Inputs Quantity)
    (hcount : inputs.pierceCount.isNegative = false) (htime : inputs.pierceTime.isNegative = false)
    (hperimeter : inputs.perimeter.isNegative = false) :
    inputs.asGiven.faults =
      if inputs.speed.isNonpositive then [.notPositive .speed inputs.speed] else [] := by
  cases hspeed : inputs.speed.isNonpositive <;>
    simp [faults, Parameter.all, Parameter.kindFault?, Parameter.signFault?, value, asGiven,
      Value.isNumber, hcount, htime, hperimeter, hspeed]

/-- A fault shows the value that its parameter was given. -/
theorem given_of_mem_faults {given : Inputs Value} {i : InvalidInput} (h : i ∈ given.faults) :
    i.given = given.value i.parameter := by
  obtain h | h := List.mem_append.mp h
  · obtain ⟨p, -, hp⟩ := List.mem_filterMap.mp h
    unfold Parameter.kindFault? at hp
    split at hp <;> cases hp
    rfl
  · obtain ⟨p, -, hp⟩ := List.mem_filterMap.mp h
    unfold Parameter.signFault? at hp
    split at hp
    next q hq => split at hp <;> split at hp <;> cases hp <;> exact hq.symm
    next => cases hp

end Inputs

namespace Calculation

open Quantity in
/-- The times are those that the formula gives for the inputs. -/
structure Follows (c : Calculation) : Prop where
  piercing : CombinesTo (· * ·) (· * ·) c.inputs.pierceCount c.inputs.pierceTime
    c.breakdown.piercing
  cutting : DividesTo c.inputs.perimeter c.inputs.speed c.breakdown.cutting
  total : CombinesTo (· + ·) (· + ·) c.breakdown.piercing c.breakdown.cutting c.breakdown.total

end Calculation

namespace Inputs

variable {inputs : Inputs Quantity} (hspeed : inputs.speed.isNonpositive = false)
include hspeed

theorem breakdown?_eq_ok_iff {b : Breakdown} :
    inputs.breakdown? = .ok b ↔ Calculation.Follows ⟨inputs, b⟩ := by
  unfold breakdown?
  simp only [bind_eq_ok_iff]
  constructor
  · rintro ⟨piercing, hpiercing, cutting, hcutting, total, htotal, h⟩
    cases h
    exact ⟨Quantity.combine?_eq_ok_iff.mp hpiercing, (Quantity.div?_eq_ok_iff hspeed).mp hcutting,
      Quantity.combine?_eq_ok_iff.mp htotal⟩
  · rintro ⟨hpiercing, hcutting, htotal⟩
    exact ⟨_, Quantity.combine?_eq_ok_iff.mpr hpiercing, _,
      (Quantity.div?_eq_ok_iff hspeed).mpr hcutting, _, Quantity.combine?_eq_ok_iff.mpr htotal, rfl⟩

/-- The formula fails for want of a double, and only if an input is an integer. -/
theorem of_breakdown?_eq_error {f : Fault} (h : inputs.breakdown? = .error f) :
    (f = .integerTooLarge ∨ f = .quotientTooLarge) ∧
      ∃ p n, inputs.asGiven.value p = .integer n := by
  have hinteger (p r : Parameter) {a b : Quantity} (ha : inputs.asGiven.value p = .number a)
      (hb : inputs.asGiven.value r = .number b) (hab : (a.isInteger || b.isInteger) = true) :
      ∃ p n, inputs.asGiven.value p = .integer n := by
    obtain hi | hi := (Bool.or_eq_true _ _).mp hab
    · obtain ⟨n, rfl⟩ := Quantity.exists_integer hi
      exact ⟨p, n, ha⟩
    · obtain ⟨n, rfl⟩ := Quantity.exists_integer hi
      exact ⟨r, n, hb⟩
  have hproduct := hinteger .pierceCount .pierceTime rfl rfl
  have hquotient := hinteger .perimeter .speed rfl rfl
  obtain h | ⟨piercing, hpiercing, h⟩ := bind_eq_error_iff.mp h
  · obtain ⟨hf, hab⟩ := Quantity.of_combine?_eq_error h
    exact ⟨.inl hf, hproduct hab⟩
  obtain h | ⟨cutting, hcutting, h⟩ := bind_eq_error_iff.mp h
  · obtain ⟨hf, hab⟩ := Quantity.of_div?_eq_error hspeed h
    exact ⟨hf, hquotient hab⟩
  obtain h | ⟨total, -, h⟩ := bind_eq_error_iff.mp h
  · -- The quotient is a double, so what is too large is a product, of two integers.
    obtain ⟨hf, hab⟩ := Quantity.of_combine?_eq_error h
    rw [((Quantity.div?_eq_ok_iff hspeed).mp hcutting).isInteger_eq, Bool.or_false,
      (Quantity.combine?_eq_ok_iff.mp hpiercing).isInteger_eq] at hab
    exact ⟨.inl hf, hproduct (by rw [((Bool.and_eq_true _ _).mp hab).1, Bool.true_or])⟩
  · cases h

end Inputs

namespace Calculation

theorem make?_eq_ok_iff {given : Inputs Value} {c : Calculation} :
    make? given = .ok c ↔ given = c.inputs.asGiven ∧ given.faults = [] ∧ c.Follows := by
  rw [← and_assoc, ← Inputs.validate?_eq_ok_iff]
  unfold make?
  simp only [bind_eq_ok_iff, mapError_eq_ok_iff]
  constructor
  · rintro ⟨inputs, hinputs, b, hb, h⟩
    cases h
    exact ⟨hinputs, (Inputs.breakdown?_eq_ok_iff (Inputs.of_validate? hinputs).2).mp hb⟩
  · rintro ⟨hinputs, hfollows⟩
    have hb := (Inputs.breakdown?_eq_ok_iff (Inputs.of_validate? hinputs).2).mpr hfollows
    exact ⟨c.inputs, hinputs, c.breakdown, hb, rfl⟩

theorem make?_eq_invalid_iff_head? {given : Inputs Value} {i : InvalidInput} :
    make? given = .error (.invalid i) ↔ given.faults.head? = some i := by
  rw [make?_eq_invalid_iff, ← Inputs.errorOf?_validate?, errorOf?_eq_some_iff]

theorem exists_make?_eq_invalid_iff {given : Inputs Value} :
    (∃ i, make? given = .error (.invalid i)) ↔ given.faults ≠ [] := by
  simp only [make?_eq_invalid_iff_head?]
  cases given.faults <;> simp

end Calculation

end Waterjet
