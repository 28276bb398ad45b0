import Waterjet.Cli.Request
import Waterjet.Proofs.Faults

/-! Accepted arguments. Whatever the arguments are and in whatever order they come, a request that
they make holds a double, or the empty list of a bare separator, wherever it holds a number. -/
namespace Waterjet.Cli
open Number

/-- What the value of a switch for a number can be. -/
def IsOption (v : Value) : Prop := v = .emptyList ∨ ∃ x, v = .double x

theorem Switch.isOption_of_number? {s : Switch} {text : String} {v : Value}
    (h : s.number? text = .ok v) : IsOption v := by
  unfold number? at h
  split at h
  · exact .inl (Except.ok.inj h).symm
  · split at h
    next x hx => exact .inr ⟨x, (Except.ok.inj h).symm⟩
    next => cases h

/-- The values of the three switches for numbers, where they have any. -/
structure Options (pierceTime speed reference : Option Value) : Prop where
  pierceTime : ∀ v, pierceTime = some v → IsOption v
  speed : ∀ v, speed = some v → IsOption v
  reference : ∀ v, reference = some v → IsOption v

def Draft.Typed (d : Draft) : Prop := Options d.pierceTime d.speed d.reference

def Request.Typed (r : Request) : Prop := Options r.pierceTime r.speed r.reference

namespace Draft

theorem typed_empty : Typed .empty := ⟨nofun, nofun, nofun⟩

variable {d d' : Draft}

theorem typed_plain (h : d.Typed) (argument : String) : (d.plain argument).Typed := by
  unfold plain
  split
  · exact h
  · exact h

theorem typed_store? (h : d.Typed) {s : Switch} {value : String}
    (hd : d.store? s value = .ok d') : d'.Typed := by
  have hnew {v : Value} (hv : s.number? value = .ok v) (w : Value) (hw : some v = some w) :
      IsOption w := Option.some.inj hw ▸ Switch.isOption_of_number? hv
  cases s with
  | help => cases hd
  | verbose => cases hd
  | config =>
    cases hd
    exact h
  | pierceTime =>
    obtain ⟨v, hv, rfl⟩ := map_eq_ok_iff.mp hd
    exact ⟨hnew hv, h.speed, h.reference⟩
  | speed =>
    obtain ⟨v, hv, rfl⟩ := map_eq_ok_iff.mp hd
    exact ⟨h.pierceTime, hnew hv, h.reference⟩
  | reference =>
    obtain ⟨v, hv, rfl⟩ := map_eq_ok_iff.mp hd
    exact ⟨h.pierceTime, h.speed, hnew hv⟩

theorem typed_raise? (h : d.Typed) {s : Switch} (hd : d.raise? s = .ok d') : d'.Typed := by
  cases s with
  | verbose =>
    cases hd
    exact h
  | _ => cases hd

theorem typed_attached? (h : d.Typed) {s : Switch} {attached : Attached}
    (hd : d.attached? s attached = .ok d') : d'.Typed := by
  cases attached with
  | none => exact typed_raise? h hd
  | value text => exact typed_store? h hd
  | tail text =>
    -- The other letters of a word of short switches are raised one by one.
    obtain ⟨row, -, hrow⟩ := bind_eq_ok_iff.mp hd
    clear hd
    induction row generalizing d with
    | nil =>
      cases hrow
      exact h
    | cons s row ih =>
      rw [List.foldlM_cons] at hrow
      obtain ⟨next, hnext, hrest⟩ := bind_eq_ok_iff.mp hrow
      exact ih (typed_raise? h hnext) hrest

theorem typed_read? (items : List Item) (h : d.Typed) (hd : d.read? items = .ok d') :
    d'.Typed := by
  fun_induction read? d items with
  | case1 d =>
    cases hd
    exact h
  | case2 d argument rest _ ih => exact ih (typed_plain h argument) hd
  | case3 d argument rest _ ih => exact ih h hd
  | case4 d argument rest _ ih => exact ih (typed_plain h argument) hd
  | case5 d rest ih =>
    refine ih ?_ hd
    split
    · exact h
    · exact h
  | case6 d argument rest ih => exact ih h hd
  | case7 d s attached _ value rest ih =>
    obtain ⟨next, hnext, hrest⟩ := bind_eq_ok_iff.mp hd
    exact ih next (typed_store? h hnext) hrest
  | case8 => cases hd
  | case9 d s attached rest _ ih =>
    obtain ⟨next, hnext, hrest⟩ := bind_eq_ok_iff.mp hd
    exact ih next (typed_attached? h hnext) hrest

theorem typed_finish? (h : d.Typed) {r : Request} (hr : d.finish? = .ok r) : r.Typed := by
  unfold finish? at hr
  split at hr
  · cases hr
  · split at hr
    · cases hr
      exact h
    · cases hr

end Draft

theorem Request.typed_of_arguments {arguments : List String} {r : Request}
    (h : ofArguments? arguments = .ok r) : r.Typed := by
  obtain ⟨items, -, h⟩ := bind_eq_ok_iff.mp h
  obtain ⟨d, hd, hr⟩ := bind_eq_ok_iff.mp h
  exact Draft.typed_finish? (Draft.typed_read? items Draft.typed_empty hd) hr

end Waterjet.Cli
