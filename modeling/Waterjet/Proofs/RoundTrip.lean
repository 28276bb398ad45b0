import Waterjet.Host.Standard
import Waterjet.Proofs.Decoding
import Waterjet.Proofs.Faults
import Waterjet.Proofs.LineEnds
import Waterjet.Proofs.Objects

/-! A configuration written to a file and read again. Its settings are spelled on lines of their
own, the bytes of the file are those of its text, and the settings that are read are those that
were written. -/
namespace Waterjet
open Number

namespace Config

/-- The doubles among the settings. -/
def doubles (c : Loaded) : List Float := [c.pierceTime, c.fallbackSpeed] ++ c.speedOverride.toList

/-- A setting as a member of an object. -/
def member (c : Loaded) (s : Setting) : Json.Member :=
  match s with
  | .pierceTime => ⟨s.key, fileDouble c.pierceTime, .double c.pierceTime⟩
  | .fallbackSpeed => ⟨s.key, fileDouble c.fallbackSpeed, .double c.fallbackSpeed⟩
  | .speedOverride =>
    ⟨s.key, c.speedOverride.elim "null" fileDouble, c.speedOverride.elim .null .double⟩
  | .arcSamples => ⟨s.key, written c.arcSamples, .integer c.arcSamples⟩

def members (c : Loaded) : List Json.Member :=
  [.pierceTime, .fallbackSpeed, .speedOverride, .arcSamples].map c.member

theorem fileText_given (c : Loaded) : fileText c.given = Json.objectText c.members := by
  obtain ⟨pierceTime, fallbackSpeed, speedOverride, arcSamples⟩ := c
  cases speedOverride <;> rfl

theorem name_member (c : Loaded) (s : Setting) : (c.member s).name = s.key := by cases s <;> rfl

theorem isPlain_key (s : Setting) : ∀ c ∈ s.key.toList, Json.IsPlain c := by
  cases s <;> simp [Setting.key, Json.IsPlain]

theorem reads_members {c : Loaded} (hdoubles : ∀ x ∈ c.doubles, x.isNaN = false)
    (hdigits : (decimalDigits c.arcSamples.natAbs).length ≤ maxDigits) :
    ∀ m ∈ c.members, m.Reads := by
  have hvalue (s : Setting) : Json.Spells (c.member s).text.toList (c.member s).value := by
    cases s with
    | pierceTime => exact Json.spells_fileDouble (hdoubles _ (by simp [doubles]))
    | fallbackSpeed => exact Json.spells_fileDouble (hdoubles _ (by simp [doubles]))
    | speedOverride =>
      unfold member
      cases hoverride : c.speedOverride with
      | none => exact Json.spells_null
      | some x => exact Json.spells_fileDouble (hdoubles x (by simp [doubles, hoverride]))
    | arcSamples => exact Json.spells_written hdigits
  refine List.forall_mem_map.mpr ?_
  intro s _
  refine ⟨?_, hvalue s⟩
  rw [name_member]
  exact isPlain_key s

theorem member?_members (c : Loaded) (s : Setting) :
    Json.member? (c.members.map fun m => (m.name, m.value)) s.key = some (c.member s).value := by
  cases s <;> rfl

/-- Settings that pass the check are taken from their own members. -/
theorem ofMembers?_members {c : Loaded} (h : check c.given = .ok ()) :
    ofMembers? (c.members.map fun m => (m.name, m.value)) = .ok c := by
  have hsetting {β : Type} (s : Setting) (otherwise : β) (convert : Json → Except LoadFault β) :
      setting? (c.members.map fun m => (m.name, m.value)) s otherwise convert =
        convert (c.member s).value := by
    rw [setting?, member?_members]
  have hpierce : (c.member .pierceTime).value.toDouble? = .ok c.pierceTime := rfl
  have hfallback : (c.member .fallbackSpeed).value.toDouble? = .ok c.fallbackSpeed := rfl
  have hoverride : override? (c.member .speedOverride).value = .ok c.speedOverride := by
    unfold member
    cases c.speedOverride <;> rfl
  have hsamples : (c.member .arcSamples).value.toInteger? = .ok c.arcSamples := rfl
  have hpassed : (check c.given).mapError LoadFault.refused = .ok () := by
    rw [h]
    rfl
  unfold ofMembers?
  rw [hsetting, hsetting, hsetting, hsetting, hpierce, hfallback, hoverride, hsamples]
  exact congrArg (· >>= fun _ => Except.ok c) hpassed

section Files

variable [Host]

theorem load?_of_decode? {bytes : List UInt8} {text : List Char}
    (h : Text.Utf8.decode? bytes = .ok text) : load? bytes = ofText? (Text.unifyLineEnds text) := by
  rw [load?, h]
  rfl

theorem ofText?_of_read? {text : List Char} {entries : List (String × Json)}
    (h : Json.read? Host.nesting text = .ok (.object entries)) :
    ofText? text = ofMembers? entries := by
  rw [ofText?, readJson?, h]
  rfl

/-- A configuration that may be made of doubles that are numbers and of an integer that a file may
hold comes back from its file as it was. -/
theorem load?_fileText (c : Loaded) (hcheck : check c.given = .ok ())
    (hdoubles : ∀ x ∈ c.doubles, x.isNaN = false)
    (hdigits : (decimalDigits c.arcSamples.natAbs).length ≤ maxDigits) :
    load? (fileText c.given).toUTF8.toList = .ok c := by
  have hmembers := reads_members hdoubles hdigits
  have hdecode : Text.Utf8.decode? (fileText c.given).toUTF8.toList =
      .ok (fileText c.given).toList :=
    Text.Utf8.decode?_eq_ok_iff.mpr (Text.Utf8.toList_toUTF8 _)
  have hreturns : '\r' ∉ (fileText c.given).toList := by
    rw [fileText_given]
    exact Json.not_mem_return_objectText hmembers
  have hread : Json.read? Host.nesting (fileText c.given).toList =
      .ok (.object (c.members.map fun m => (m.name, m.value))) := by
    rw [fileText_given]
    exact Json.read?_objectText Host.nesting hmembers (List.cons_ne_nil _ _)
  rw [load?_of_decode? hdecode, Text.unifyLineEnds_of_not_mem hreturns, ofText?_of_read? hread]
  exact ofMembers?_members hcheck

end Files

/-- A negative zero, the least double, an infinite override and an integer of a hundred digits; and
no override. -/
theorem load?_fileText_extreme :
    letI : Host := .standard
    (let c : Loaded := ⟨-0.0, 5e-324, some (infinity false), 10 ^ 99⟩
     check c.given = .ok () ∧ (∀ x ∈ c.doubles, x.isNaN = false) ∧
       (decimalDigits c.arcSamples.natAbs).length ≤ maxDigits ∧
       load? (fileText c.given).toUTF8.toList = .ok c) ∧
    load? (fileText default.given).toUTF8.toList = .ok default := by
  let host : Host := .standard
  refine ⟨?_, load?_fileText default rfl (by decide +kernel) (by decide +kernel)⟩
  intro c
  obtain ⟨⟨⟩, hcheck⟩ := exists_eq_ok_of_toBool (x := check c.given) (by decide +kernel)
  have hdoubles : ∀ x ∈ c.doubles, x.isNaN = false := by decide +kernel
  have hdigits : (decimalDigits c.arcSamples.natAbs).length ≤ maxDigits := by decide +kernel
  exact ⟨hcheck, hdoubles, hdigits, load?_fileText c hcheck hdoubles hdigits⟩

end Config

end Waterjet
