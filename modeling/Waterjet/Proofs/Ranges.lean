import Waterjet.Host.Standard
import Waterjet.Proofs.Endings

/-! Settings and their ranges. A check refuses what is out of range, and what is not a number is
neither in range nor out of it: it passes. So the settings that exist are usable exactly if all of
them are numbers. -/
namespace Waterjet
open Number

namespace Number.Quantity

def isNaN : Quantity → Bool
  | .integer _ => false
  | .double x => x.isNaN

/-- Above zero; a value that is not a number is not. -/
def isPositive : Quantity → Bool
  | .integer n => 0 < n
  | .double x => 0.0 < x

/-- At least a whole number. -/
def isAtLeast (bound : Int) : Quantity → Bool
  | .integer n => bound ≤ n
  | .double x => Float.ofInt bound ≤ x

theorem isNegative_eq_false_iff (q : Quantity) :
    q.isNegative = false ↔ q.isNaN = true ∨ q.isNonnegative = true := by
  cases q with
  | integer n => simp [isNegative, isNaN, isNonnegative]
  | double x =>
    simpa [isNegative, isNaN, isNonnegative] using not_lt_iff (x := x) (y := 0.0) (by decide)

theorem isNonpositive_eq_false_iff (q : Quantity) :
    q.isNonpositive = false ↔ q.isNaN = true ∨ q.isPositive = true := by
  cases q with
  | integer n => simp [isNonpositive, isNaN, isPositive]
  | double x =>
    simpa [isNonpositive, isNaN, isPositive] using not_le_iff (x := x) (y := 0.0) (by decide)

theorem isBelow_two_eq_false_iff (q : Quantity) :
    q.isBelow 2 = false ↔ q.isNaN = true ∨ q.isAtLeast 2 = true := by
  cases q with
  | integer n =>
    simp only [isBelow, isNaN, isAtLeast, decide_eq_false_iff_not, Int.not_lt, Bool.false_eq_true,
      false_or, decide_eq_true_eq]
  | double x =>
    simpa [isBelow, isNaN, isAtLeast] using not_lt_iff (x := x) (y := Float.ofInt 2) (by decide)

end Number.Quantity

/-- The comparison that makes a setting usable. -/
def Setting.admits : Setting → Quantity → Bool
  | .pierceTime => Quantity.isNonnegative
  | .fallbackSpeed => Quantity.isPositive
  | .speedOverride => Quantity.isPositive
  | .arcSamples => Quantity.isAtLeast 2

/-- The comparison that a check refuses it by. -/
def Setting.excludes : Setting → Quantity → Bool
  | .pierceTime => Quantity.isNegative
  | .fallbackSpeed => Quantity.isNonpositive
  | .speedOverride => Quantity.isNonpositive
  | .arcSamples => Quantity.isBelow 2

theorem Setting.excludes_eq_false_iff (s : Setting) (q : Quantity) :
    s.excludes q = false ↔ q.isNaN = true ∨ s.admits q = true := by
  cases s with
  | pierceTime => exact q.isNegative_eq_false_iff
  | fallbackSpeed => exact q.isNonpositive_eq_false_iff
  | speedOverride => exact q.isNonpositive_eq_false_iff
  | arcSamples => exact q.isBelow_two_eq_false_iff

/-- What is admitted is a number. -/
theorem Setting.isNaN_of_admits {s : Setting} {q : Quantity} (h : s.admits q = true) :
    q.isNaN = false := by
  cases q with
  | integer n => rfl
  | double x =>
    cases s with
    | pierceTime => exact isNaN_of_le_right (of_decide_eq_true h)
    | fallbackSpeed => exact isNaN_of_le_right (le_of_lt (of_decide_eq_true h))
    | speedOverride => exact isNaN_of_le_right (le_of_lt (of_decide_eq_true h))
    | arcSamples => exact isNaN_of_le_right (of_decide_eq_true h)

theorem Value.forbid_eq_ok_iff {v : Value} {comparison : String} {bad : Quantity → Bool}
    {fault : ConfigFault} :
    v.forbid comparison bad fault = .ok () ↔ ∃ q, v.quantity? = some q ∧ bad q = false := by
  unfold forbid
  cases v.quantity? with
  | none => simp
  | some q => cases hbad : bad q <;> simp [hbad]

namespace Config

def value? (c : Given) : Setting → Option Value
  | .pierceTime => some c.pierceTime
  | .fallbackSpeed => some c.fallbackSpeed
  | .speedOverride => c.speedOverride
  | .arcSamples => some c.arcSamples

/-- Every setting that is there is a number in its range. -/
def Usable (c : Given) : Prop :=
  ∀ s v, c.value? s = some v → ∃ q, v.quantity? = some q ∧ s.admits q = true

/-- No setting stands for what is not a number. -/
def Numeric (c : Given) : Prop :=
  ∀ s v q, c.value? s = some v → v.quantity? = some q → q.isNaN = false

/-- The settings are checked one by one, each for itself. -/
theorem check_eq_ok_iff (c : Given) :
    check c = .ok () ↔
      ∀ s v, c.value? s = some v → ∃ q, v.quantity? = some q ∧ s.excludes q = false := by
  have hcheck : check c = .ok () ↔
      (∃ q, c.pierceTime.quantity? = some q ∧ q.isNegative = false) ∧
      (∃ q, c.fallbackSpeed.quantity? = some q ∧ q.isNonpositive = false) ∧
      (∀ v, c.speedOverride = some v → ∃ q, v.quantity? = some q ∧ q.isNonpositive = false) ∧
      ∃ q, c.arcSamples.quantity? = some q ∧ q.isBelow 2 = false := by
    obtain ⟨pierceTime, fallbackSpeed, speedOverride, arcSamples⟩ := c
    unfold check
    rw [check_bind_eq_ok_iff, check_bind_eq_ok_iff, Value.forbid_eq_ok_iff, Value.forbid_eq_ok_iff]
    refine and_congr_right fun _ => and_congr_right fun _ => ?_
    cases speedOverride with
    | none =>
      have hnone : ∀ v : Value, none = some v →
          ∃ q, v.quantity? = some q ∧ q.isNonpositive = false := nofun
      exact Value.forbid_eq_ok_iff.trans (and_iff_right hnone).symm
    | some v =>
      change ((v.forbid _ _ _ >>= fun _ => _) = _) ↔ _
      rw [check_bind_eq_ok_iff, Value.forbid_eq_ok_iff, Value.forbid_eq_ok_iff]
      simp only [Option.some.injEq, forall_eq']
  rw [hcheck]
  constructor
  · rintro ⟨hpierce, hfallback, hoverride, hsamples⟩ s v hv
    cases s with
    | pierceTime =>
      cases hv
      exact hpierce
    | fallbackSpeed =>
      cases hv
      exact hfallback
    | speedOverride => exact hoverride v hv
    | arcSamples =>
      cases hv
      exact hsamples
  · intro h
    exact ⟨h .pierceTime _ rfl, h .fallbackSpeed _ rfl, h .speedOverride, h .arcSamples _ rfl⟩

/-- A check lets pass what is in range and what is not a number. -/
theorem check_eq_ok_iff_admits (c : Given) :
    check c = .ok () ↔ ∀ s v, c.value? s = some v →
      ∃ q, v.quantity? = some q ∧ (s.admits q = true ∨ q.isNaN = true) := by
  simp only [check_eq_ok_iff, Setting.excludes_eq_false_iff, or_comm]

theorem usable_iff (c : Given) : c.Usable ↔ check c = .ok () ∧ c.Numeric := by
  rw [check_eq_ok_iff_admits]
  constructor
  · intro h
    constructor
    · intro s v hv
      obtain ⟨q, hq, hadmits⟩ := h s v hv
      exact ⟨q, hq, .inl hadmits⟩
    · intro s v q hv hq
      obtain ⟨q', hq', hadmits⟩ := h s v hv
      cases hq.symm.trans hq'
      exact Setting.isNaN_of_admits hadmits
  · rintro ⟨hcheck, hnumeric⟩ s v hv
    obtain ⟨q, hq, hadmits | hnan⟩ := hcheck s v hv
    · exact ⟨q, hq, hadmits⟩
    · rw [hnumeric s v q hv hq] at hnan
      cases hnan

theorem check_of_fileSettings? [Host] {path : String} {file : Cli.FileState} {c : Loaded}
    {log : List Cli.LogEntry} (h : Cli.fileSettings? path file = .ok (c, log)) :
    check c.given = .ok () := by
  unfold Cli.fileSettings? at h
  split at h
  · split at h
    next hload =>
      cases h
      exact check_of_load? hload
    next => cases h
  · cases h
  · cases h
  · split at h <;> cases h
    rfl
  · cases h
    rfl

/-- Settings that exist, whether given by a caller or found in a file. They are accepted exactly if
each is in its range or is not a number, so they are usable exactly if they are accepted and all of
them are numbers. Those of a file, or those by default where it is not there, have been accepted in
this sense; their number of samples is always in range, being an integer. -/
theorem usable_iff_numeric [Host] (c : Given) :
    (check c = .ok () ↔ ∀ s v, c.value? s = some v →
      ∃ q, v.quantity? = some q ∧ (s.admits q = true ∨ q.isNaN = true)) ∧
    (c.Usable ↔ check c = .ok () ∧ c.Numeric) ∧
    ∀ path file settings log, Cli.fileSettings? path file = .ok (settings, log) →
      c = settings.given →
        check c = .ok () ∧ 2 ≤ settings.arcSamples ∧ (c.Usable ↔ c.Numeric) := by
  refine ⟨check_eq_ok_iff_admits c, usable_iff c, ?_⟩
  rintro path file settings log h rfl
  have hcheck := check_of_fileSettings? h
  exact ⟨hcheck, two_le_of_check hcheck, (usable_iff _).trans (and_iff_right hcheck)⟩

theorem not_usable_of_isNaN {c : Given} {s : Setting} {x : Float}
    (hv : c.value? s = some (.double x)) (hx : x.isNaN = true) : ¬ c.Usable := by
  intro h
  have hnumber : x.isNaN = false := ((usable_iff c).mp h).2 s _ (.double x) hv rfl
  rw [hnumber] at hx
  cases hx

theorem exists_load?_of_isNaN [Host] (bytes : List UInt8) (get : Loaded → Option Float)
    (h : (load? bytes).toOption.any (fun c => (get c).any (·.isNaN)) = true) :
    ∃ c x, load? bytes = .ok c ∧ get c = some x ∧ x.isNaN = true := by
  cases hload : load? bytes with
  | error f =>
    rw [hload] at h
    cases h
  | ok c =>
    have hget : (get c).any (·.isNaN) = true := by
      rw [hload] at h
      exact h
    cases hx : get c with
    | none =>
      rw [hx] at hget
      cases hget
    | some x =>
      rw [hx] at hget
      exact ⟨c, x, rfl, hx, hget⟩

/-- A file gives a time per pierce, a fallback speed or an override that is not a number, and a
caller a number of samples that is none. All of them are accepted. -/
theorem load?_not_usable :
    letI : Host := .standard
    (∃ c, load? "\x7b\x22pierce_time_per_pierce\x22: NaN\x7d".toUTF8.toList = .ok c ∧
      ¬ 0.0 ≤ c.pierceTime ∧ ¬ c.given.Usable) ∧
    (∃ c, load? "\x7b\x22fallback_cutting_speed\x22: \x22nan\x22\x7d".toUTF8.toList = .ok c ∧
      ¬ 0.0 < c.fallbackSpeed ∧ ¬ c.given.Usable) ∧
    (∃ c x, load? "\x7b\x22cutting_speed_override\x22: NaN\x7d".toUTF8.toList = .ok c ∧
      c.speedOverride = some x ∧ ¬ 0.0 < x ∧ ¬ c.given.Usable) ∧
    (let c : Given := { default.given with arcSamples := .double nan }
     check c = .ok () ∧ ¬ c.Usable) := by
  let host : Host := .standard
  have hle {x : Float} (hx : x.isNaN = true) : ¬ 0.0 ≤ x :=
    mt isNaN_of_le_right (Bool.ne_false_iff.mpr hx)
  refine ⟨?_, ?_, ?_, rfl, not_usable_of_isNaN (s := .arcSamples) rfl (by decide)⟩
  · obtain ⟨c, _, hload, ⟨⟩, hnan⟩ := exists_load?_of_isNaN
      "\x7b\x22pierce_time_per_pierce\x22: NaN\x7d".toUTF8.toList
      (fun c => some c.pierceTime) (by decide +kernel)
    exact ⟨c, hload, hle hnan, not_usable_of_isNaN (s := .pierceTime) rfl hnan⟩
  · obtain ⟨c, _, hload, ⟨⟩, hnan⟩ := exists_load?_of_isNaN
      "\x7b\x22fallback_cutting_speed\x22: \x22nan\x22\x7d".toUTF8.toList
      (fun c => some c.fallbackSpeed) (by decide +kernel)
    exact ⟨c, hload, mt le_of_lt (hle hnan), not_usable_of_isNaN (s := .fallbackSpeed) rfl hnan⟩
  · obtain ⟨c, x, hload, hx, hnan⟩ := exists_load?_of_isNaN
      "\x7b\x22cutting_speed_override\x22: NaN\x7d".toUTF8.toList
      (fun c => c.speedOverride) (by decide +kernel)
    have hv : c.given.value? .speedOverride = some (.double x) :=
      congrArg (Option.map Value.double) hx
    exact ⟨c, x, hload, hx, mt le_of_lt (hle hnan), not_usable_of_isNaN hv hnan⟩

end Config

end Waterjet
