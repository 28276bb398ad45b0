import Waterjet.Proofs.Decoding
import Waterjet.Proofs.Endings
import Waterjet.Proofs.Mixed

/-! What loading a configuration lets escape. A file gives settings, is refused with a message, or
fails in a way that has none: its bytes are no text, the reader gives up on an integer or on the
depth of its containers, or a number is beyond what its setting is kept in. -/
namespace Waterjet
open Number

namespace Number

/-- An integer has a double below the bound of what is rounded to infinity. -/
theorem exists_doubleOfInt?_iff (n : Int) :
    (∃ x, doubleOfInt? n = .ok x) ↔ n.natAbs < overflowBound := by
  simp only [doubleOfInt?_eq_ok_iff, exists_and_left, exists_eq, and_true]

end Number

/-- A failure that has no message of the configuration's own. -/
def LoadFault.Escapes {β : Type} (x : Except LoadFault β) : Prop :=
  ∃ f, x = .error f ∧ Cli.isReported f = false

open LoadFault (Escapes)

section Stages

variable {β γ : Type}

theorem not_escapes_ok (b : β) : ¬ Escapes (.ok b) := nofun

theorem escapes_error_iff {f : LoadFault} :
    Escapes (.error f : Except LoadFault β) ↔ Cli.isReported f = false := by
  simp [Escapes]

instance (x : Except LoadFault β) : Decidable (Escapes x) :=
  match x with
  | .ok b => .isFalse (not_escapes_ok b)
  | .error _ => decidable_of_iff _ escapes_error_iff.symm

theorem escapes_bind_iff {x : Except LoadFault β} {next : β → Except LoadFault γ} :
    Escapes (x >>= next) ↔ Escapes x ∨ ∃ b, x = .ok b ∧ Escapes (next b) := by
  cases x with
  | error f => simp [Escapes, bind, Except.bind]
  | ok b => simp [Escapes, bind, Except.bind]

theorem escapes_map_iff {x : Except LoadFault β} {f : β → γ} :
    Escapes (x.map f) ↔ Escapes x := by
  cases x <;> simp [Escapes, Except.map]

/-- Two steps that do not depend on each other: the second counts if the first goes well. -/
theorem escapes_bind_const_iff {x : Except LoadFault β} {next : β → Except LoadFault γ} {p : Prop}
    (h : ∀ b, Escapes (next b) ↔ p) :
    Escapes (x >>= next) ↔ Escapes x ∨ (∃ b, x = .ok b) ∧ p := by
  simp only [escapes_bind_iff, h, exists_and_right]

end Stages

namespace Json

/-- An integer whose nearest double would be infinite. -/
def OverflowsDouble : Json → Prop
  | .integer n => overflowBound ≤ n.natAbs
  | _ => False

/-- An infinite number has no integer. -/
def OverflowsInteger : Json → Prop
  | .double x => x.isInf = true
  | _ => False

/-- A value that can be read as a double. -/
def HasDouble : Json → Prop
  | .bool _ => True
  | .integer n => n.natAbs < overflowBound
  | .double _ => True
  | .text s => ∃ x, double? s.toList = some x
  | _ => False

/-- A value that can be read as an integer. -/
def HasInteger : Json → Prop
  | .bool _ => True
  | .integer _ => True
  | .double x => x.isFinite = true
  | .text s => ∃ n, integer? s.toList = .ok n
  | _ => False

end Json

namespace Setting

/-- A number beyond what the setting is kept in. -/
def Overflows (v : Json) : Setting → Prop
  | .arcSamples => v.OverflowsInteger
  | _ => v.OverflowsDouble

/-- A value that the setting can be read from. -/
def Takes (v : Json) : Setting → Prop
  | .arcSamples => v.HasInteger
  | .speedOverride => v = .null ∨ v.HasDouble
  | _ => v.HasDouble

/-- The settings that are read before it. -/
def earlier : Setting → List Setting
  | .pierceTime => []
  | .fallbackSpeed => [.pierceTime]
  | .speedOverride => [.pierceTime, .fallbackSpeed]
  | .arcSamples => [.pierceTime, .fallbackSpeed, .speedOverride]

/-- The members have a value for the setting that is beyond what it is kept in. -/
def OverflowsIn (members : List (String × Json)) (s : Setting) : Prop :=
  ∃ v, Json.member? members s.key = some v ∧ s.Overflows v

/-- The members have no value for the setting or one that it can be read from. -/
def TakesFrom (members : List (String × Json)) (s : Setting) : Prop :=
  ∀ v, Json.member? members s.key = some v → s.Takes v

end Setting

namespace Json

theorem escapes_toDouble?_iff (v : Json) : Escapes v.toDouble? ↔ v.OverflowsDouble := by
  cases v with
  | integer n =>
    have hdouble : Escapes (toDouble? (.integer n)) ↔ ¬ ∃ x, doubleOfInt? n = .ok x := by
      change Escapes ((doubleOfInt? n).mapError .outOfRange) ↔ _
      cases doubleOfInt? n <;> simp [Escapes, Except.mapError, Cli.isReported]
    rw [hdouble, exists_doubleOfInt?_iff, Nat.not_lt]
    rfl
  | text s =>
    unfold toDouble?
    dsimp only
    split <;> simp [Escapes, Cli.isReported, OverflowsDouble]
  | _ => simp [toDouble?, Escapes, Cli.isReported, OverflowsDouble]

theorem exists_toDouble?_iff (v : Json) : (∃ x, v.toDouble? = .ok x) ↔ v.HasDouble := by
  cases v with
  | integer n =>
    have hdouble : (∃ x, toDouble? (.integer n) = .ok x) ↔ ∃ x, doubleOfInt? n = .ok x := by
      simp only [toDouble?, mapError_eq_ok_iff]
    rw [hdouble, exists_doubleOfInt?_iff]
    rfl
  | text s =>
    unfold toDouble?
    cases h : double? s.toList <;> simp [HasDouble, h]
  | _ => simp [toDouble?, HasDouble]

theorem escapes_toInteger?_iff (v : Json) : Escapes v.toInteger? ↔ v.OverflowsInteger := by
  cases v with
  | double x =>
    have hinf := isInf_iff x
    unfold toInteger? truncate?
    cases hx : decode x <;> simp [Escapes, Cli.isReported, OverflowsInteger, hinf, hx]
  | text s =>
    unfold toInteger?
    dsimp only
    split <;> simp [Escapes, Cli.isReported, OverflowsInteger]
  | _ => simp [toInteger?, Escapes, Cli.isReported, OverflowsInteger]

end Json

namespace Config

variable {β : Type} (members : List (String × Json))

theorem escapes_setting?_iff (s : Setting) (otherwise : β) {convert : Json → Except LoadFault β}
    (h : ∀ v, Escapes (convert v) ↔ s.Overflows v) :
    Escapes (setting? members s otherwise convert) ↔ s.OverflowsIn members := by
  unfold setting? Setting.OverflowsIn
  cases Json.member? members s.key <;> simp [not_escapes_ok, h]

theorem exists_setting?_iff (s : Setting) (otherwise : β) {convert : Json → Except LoadFault β}
    (h : ∀ v, (∃ b, convert v = .ok b) ↔ s.Takes v) :
    (∃ b, setting? members s otherwise convert = .ok b) ↔ s.TakesFrom members := by
  unfold setting? Setting.TakesFrom
  cases Json.member? members s.key <;> simp [h]

theorem override?_of_ne_null {v : Json} (h : v ≠ .null) :
    override? v = v.toDouble?.map some := by
  cases v with
  | null => exact absurd rfl h
  | _ => rfl

theorem escapes_override?_iff (v : Json) : Escapes (override? v) ↔ v.OverflowsDouble := by
  by_cases h : v = .null
  · rw [h]
    exact iff_of_false (not_escapes_ok _) id
  · rw [override?_of_ne_null h, escapes_map_iff, Json.escapes_toDouble?_iff]

theorem exists_override?_iff (v : Json) :
    (∃ x, override? v = .ok x) ↔ v = .null ∨ v.HasDouble := by
  by_cases h : v = .null
  · rw [h]
    exact iff_of_true ⟨none, rfl⟩ (.inl rfl)
  · rw [override?_of_ne_null h, exists_map_eq_ok_iff, Json.exists_toDouble?_iff, or_iff_right h]

/-- Refusing settings out of range escapes nothing. -/
theorem not_escapes_check (c : Loaded) :
    ¬ Escapes ((check c.given).mapError .refused >>= fun _ => pure c) := by
  cases h : check c.given with
  | error f => exact nofun
  | ok u => exact not_escapes_ok c

/-- The first setting that cannot be read decides, and only a number out of range escapes. -/
theorem escapes_ofMembers?_iff :
    Escapes (ofMembers? members) ↔
      ∃ s : Setting, s.OverflowsIn members ∧ ∀ t ∈ s.earlier, t.TakesFrom members := by
  have htime := escapes_setting?_iff members .pierceTime default.pierceTime
    Json.escapes_toDouble?_iff
  have hfallback := escapes_setting?_iff members .fallbackSpeed default.fallbackSpeed
    Json.escapes_toDouble?_iff
  have hoverride := escapes_setting?_iff members .speedOverride default.speedOverride
    escapes_override?_iff
  have hsamples := escapes_setting?_iff members .arcSamples default.arcSamples
    Json.escapes_toInteger?_iff
  have htime' := exists_setting?_iff members .pierceTime default.pierceTime
    Json.exists_toDouble?_iff
  have hfallback' := exists_setting?_iff members .fallbackSpeed default.fallbackSpeed
    Json.exists_toDouble?_iff
  have hoverride' := exists_setting?_iff members .speedOverride default.speedOverride
    exists_override?_iff
  have hfirst : Escapes (ofMembers? members) ↔
      Setting.pierceTime.OverflowsIn members ∨ Setting.pierceTime.TakesFrom members ∧
      (Setting.fallbackSpeed.OverflowsIn members ∨ Setting.fallbackSpeed.TakesFrom members ∧
      (Setting.speedOverride.OverflowsIn members ∨ Setting.speedOverride.TakesFrom members ∧
        Setting.arcSamples.OverflowsIn members)) := by
    rw [← htime, ← hfallback, ← hoverride, ← hsamples, ← htime', ← hfallback', ← hoverride']
    refine escapes_bind_const_iff fun time => ?_
    refine escapes_bind_const_iff fun fallback => ?_
    refine escapes_bind_const_iff fun override => ?_
    rw [escapes_bind_iff]
    exact or_iff_left fun ⟨samples, _, h⟩ => not_escapes_check ⟨_, _, _, _⟩ h
  rw [hfirst]
  constructor
  · rintro (h | ⟨h₁, h | ⟨h₂, h | ⟨h₃, h⟩⟩⟩)
    · exact ⟨.pierceTime, h, nofun⟩
    · exact ⟨.fallbackSpeed, h, by simp [Setting.earlier, h₁]⟩
    · exact ⟨.speedOverride, h, by simp [Setting.earlier, h₁, h₂]⟩
    · exact ⟨.arcSamples, h, by simp [Setting.earlier, h₁, h₂, h₃]⟩
  · rintro ⟨s, h, hearlier⟩
    cases s with
    | pierceTime => exact .inl h
    | fallbackSpeed => exact .inr ⟨hearlier .pierceTime (by decide), .inl h⟩
    | speedOverride =>
      exact .inr ⟨hearlier .pierceTime (by decide),
        .inr ⟨hearlier .fallbackSpeed (by decide), .inl h⟩⟩
    | arcSamples =>
      exact .inr ⟨hearlier .pierceTime (by decide), .inr ⟨hearlier .fallbackSpeed (by decide),
        .inr ⟨hearlier .speedOverride (by decide), h⟩⟩⟩

theorem escapes_decode?_iff (bytes : List UInt8) :
    Escapes ((Text.Utf8.decode? bytes).mapError .undecodable) ↔
      ∀ text : String, bytes ≠ text.toUTF8.toList := by
  have htext (text : String) : Text.Utf8.decode? bytes = .ok text.toList ↔
      bytes = text.toUTF8.toList := by
    rw [Text.Utf8.decode?_eq_ok_iff, Text.Utf8.toList_toUTF8]
  cases h : Text.Utf8.decode? bytes with
  | error f =>
    refine iff_of_true ⟨_, rfl, rfl⟩ fun text heq => ?_
    cases h.symm.trans ((htext text).mpr heq)
  | ok cs =>
    refine iff_of_false (not_escapes_ok cs) fun hne => hne (.ofList cs) ?_
    rw [← htext, String.toList_ofList, h]

section Files

variable [Host]

theorem escapes_readJson?_iff (text : List Char) :
    Escapes (readJson? text) ↔
      (∃ n, Json.read? Host.nesting text = .error (.tooManyDigits n)) ∨
        ∃ c, Json.read? Host.nesting text = .error (.tooDeep c) := by
  unfold readJson?
  cases Json.read? Host.nesting text with
  | ok v => simp [Escapes]
  | error f => cases f <;> simp [Escapes, Cli.isReported]

theorem readJson?_eq_ok_iff {text : List Char} {v : Json} :
    readJson? text = .ok v ↔ Json.read? Host.nesting text = .ok v := by
  unfold readJson?
  cases Json.read? Host.nesting text with
  | ok v => simp
  | error f => cases f <;> simp

theorem escapes_ofText?_iff (text : List Char) :
    Escapes (ofText? text) ↔
      (∃ n, Json.read? Host.nesting text = .error (.tooManyDigits n)) ∨
      (∃ c, Json.read? Host.nesting text = .error (.tooDeep c)) ∨
      ∃ members, Json.read? Host.nesting text = .ok (.object members) ∧
        ∃ s : Setting, s.OverflowsIn members ∧ ∀ t ∈ s.earlier, t.TakesFrom members := by
  unfold ofText?
  rw [escapes_bind_iff, escapes_readJson?_iff, or_assoc]
  refine or_congr_right (or_congr_right ?_)
  simp only [readJson?_eq_ok_iff, ← escapes_ofMembers?_iff]
  constructor
  · rintro ⟨v, hv, h⟩
    cases v with
    | object members => exact ⟨members, hv, h⟩
    | _ => exact absurd h nofun
  · rintro ⟨members, hmembers, h⟩
    exact ⟨.object members, hmembers, h⟩

/-- What escapes the loading of a file, whatever its bytes: that they are no text, that the reader
gives up on an integer of too many digits or on containers too deep, and the first setting that
cannot be read if it is a number out of range. All else gives settings or is refused with a
message. -/
theorem load?_escapes_iff (bytes : List UInt8) :
    Escapes (load? bytes) ↔
      (∀ text : String, bytes ≠ text.toUTF8.toList) ∨
      ∃ text : String, bytes = text.toUTF8.toList ∧
        ((∃ n,
          Json.read? Host.nesting (Text.unifyLineEnds text.toList) = .error (.tooManyDigits n)) ∨
        (∃ c, Json.read? Host.nesting (Text.unifyLineEnds text.toList) = .error (.tooDeep c)) ∨
        ∃ members,
          Json.read? Host.nesting (Text.unifyLineEnds text.toList) = .ok (.object members) ∧
          ∃ s : Setting, s.OverflowsIn members ∧ ∀ t ∈ s.earlier, t.TakesFrom members) := by
  unfold load?
  rw [escapes_bind_iff, escapes_decode?_iff]
  refine or_congr_right ?_
  simp only [mapError_eq_ok_iff, ← escapes_ofText?_iff, Text.Utf8.decode?_eq_ok_iff,
    Text.Utf8.toList_toUTF8]
  constructor
  · rintro ⟨cs, hbytes, h⟩
    exact ⟨.ofList cs, by rwa [String.toList_ofList], by rwa [String.toList_ofList]⟩
  · rintro ⟨text, hbytes, h⟩
    exact ⟨text.toList, hbytes, h⟩

end Files

/-- A byte that begins no character, and a number of samples that is infinite. One that is no
number at all is refused. -/
theorem load?_escapes_each :
    letI : Host := .standard
    Escapes (load? [0xFF]) ∧
      Escapes (load? "\x7b\x22arc_samples\x22: Infinity\x7d".toUTF8.toList) ∧
      ¬ Escapes (load? "\x7b\x22arc_samples\x22: NaN\x7d".toUTF8.toList) := by
  decide +kernel

end Config

end Waterjet
