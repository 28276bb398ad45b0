import Waterjet.Estimate.Report
import Waterjet.Proofs.Accounts
import Waterjet.Proofs.Faults

/-! What is printed stays on its line. Numbers, clock times and quoted words are made of printable
characters only, whatever they stand for, and so is the message of a skipped line: the one thing in
it that the program chooses is a quoted word. No printable character breaks a line. -/
namespace Waterjet
open Number Nc

namespace Text

/-- All characters can be shown as they are. -/
def IsPlain (cs : List Char) : Prop := ∀ c ∈ cs, isPrintable c = true

instance (cs : List Char) : Decidable (IsPlain cs) :=
  inferInstanceAs (Decidable (∀ c ∈ cs, isPrintable c = true))

/-- The code points at which some reader of text ends a line: line feed, vertical tab, form feed,
carriage return, the separator controls, the next-line control, and the separators of lines and of
paragraphs. -/
def lineBreaks : List Nat :=
  [0x0A, 0x0B, 0x0C, 0x0D, 0x1C, 0x1D, 0x1E, 0x85, 0x2028, 0x2029]

def breaksLine (c : Char) : Bool := lineBreaks.contains c.toNat

theorem breaksLine_of_isPrintable {c : Char} (h : isPrintable c = true) : breaksLine c = false := by
  have hhidden : ∀ n ∈ lineBreaks, isPrintable (Char.ofNat n) = false := by decide +kernel
  by_contra hbreak
  have hcode : c.toNat ∈ lineBreaks := by simpa [breaksLine] using hbreak
  have hnot := hhidden _ hcode
  rw [Char.ofNat_toNat, h] at hnot
  cases hnot

theorem isPrintable_of_ascii {c : Char} (hlow : 0x20 ≤ c.toNat) (hhigh : c.toNat < 0x7F) :
    isPrintable c = true := by
  unfold isPrintable
  rw [if_pos (by omega), Bool.and_eq_true, decide_eq_true_eq, decide_eq_true_eq]
  exact ⟨hlow, hhigh⟩

namespace IsPlain

variable {cs ds : List Char}

@[simp] theorem nil : IsPlain [] := nofun

@[simp] theorem cons_iff {c : Char} : IsPlain (c :: cs) ↔ isPrintable c = true ∧ IsPlain cs :=
  List.forall_mem_cons

@[simp] theorem append_iff : IsPlain (cs ++ ds) ↔ IsPlain cs ∧ IsPlain ds :=
  List.forall_mem_append

theorem of_subset (h : IsPlain ds) (hsub : cs ⊆ ds) : IsPlain cs := fun c hc => h c (hsub hc)

theorem take (h : IsPlain cs) (n : Nat) : IsPlain (cs.take n) := h.of_subset (List.take_subset n cs)

theorem drop (h : IsPlain cs) (n : Nat) : IsPlain (cs.drop n) := h.of_subset (List.drop_subset n cs)

theorem replicate {c : Char} (h : isPrintable c = true) (n : Nat) :
    IsPlain (List.replicate n c) := by
  intro d hd
  rwa [List.eq_of_mem_replicate hd]

theorem newline_not_mem (h : IsPlain cs) : '\n' ∉ cs := fun hc => absurd (h '\n' hc) (by decide)

end IsPlain

theorem isPrintable_of_isDigit {c : Char} (h : c.isDigit = true) : isPrintable c = true := by
  have hrange : 48 ≤ c.toNat ∧ c.toNat ≤ 57 := by
    simp only [Char.isDigit, Bool.and_eq_true, decide_eq_true_eq, ge_iff_le,
      UInt32.le_iff_toNat_le] at h
    exact h
  exact isPrintable_of_ascii (by omega) (by omega)

theorem isPlain_toDigits (n : Nat) : IsPlain (Nat.toDigits 10 n) := fun _ hc =>
  isPrintable_of_isDigit (Nat.isDigit_of_mem_toDigits (by decide) (by decide) hc)

section Quoted

theorem isPlain_hexDigits (width n : Nat) : IsPlain (hexDigits width n) := by
  induction width generalizing n with
  | zero => exact .nil
  | succ width ih =>
    have hdigits : ∀ k < 16, isPrintable (Nat.digitChar k) = true := by decide
    rw [hexDigits, IsPlain.append_iff, IsPlain.cons_iff]
    exact ⟨ih _, hdigits _ (Nat.mod_lt n (by decide)), .nil⟩

theorem isPlain_escapeCode (n : Nat) : IsPlain (escapeCode n) := by
  have hescape {letter : Char} (hletter : isPrintable letter = true) (width : Nat) :
      IsPlain ('\\' :: letter :: hexDigits width n) := by
    rw [IsPlain.cons_iff, IsPlain.cons_iff]
    exact ⟨by decide, hletter, isPlain_hexDigits width n⟩
  unfold escapeCode
  split
  · exact hescape (by decide) 2
  · split
    · exact hescape (by decide) 4
    · exact hescape (by decide) 8

/-- What is not printable is escaped. -/
theorem isPlain_escapeChar {mark : Char} (hmark : isPrintable mark = true) (c : Char) :
    IsPlain (escapeChar mark c) := by
  unfold escapeChar
  split
  · next hescaped =>
    have hc : isPrintable c = true := by
      rw [Bool.or_eq_true, beq_iff_eq, beq_iff_eq] at hescaped
      rcases hescaped with rfl | rfl
      · exact hmark
      · decide
    exact IsPlain.cons_iff.mpr ⟨by decide, IsPlain.cons_iff.mpr ⟨hc, .nil⟩⟩
  split
  · simp [isPrintable_of_ascii]
  split
  · simp [isPrintable_of_ascii]
  split
  · simp [isPrintable_of_ascii]
  split
  · next hc => exact IsPlain.cons_iff.mpr ⟨hc, .nil⟩
  · exact isPlain_escapeCode _

/-- A quoted text is printable whatever the text is. -/
theorem isPlain_quoted (s : String) : IsPlain (quoted s).toList := by
  have hmark : isPrintable (quoteMark s.toList) = true := by
    unfold quoteMark
    split <;> decide
  rw [quoted, String.toList_ofList, quotedChars, IsPlain.cons_iff, IsPlain.append_iff,
    IsPlain.cons_iff]
  refine ⟨hmark, ?_, hmark, .nil⟩
  intro c hc
  obtain ⟨d, -, hd⟩ := List.mem_flatMap.mp hc
  exact isPlain_escapeChar hmark d c hd

end Quoted

end Text

namespace Number
open Text

section Notation

variable {negative : Bool} {cs : List Char}

theorem isPlain_signed (h : IsPlain cs) : IsPlain (signed negative cs).toList := by
  rw [signed, String.toList_ofList]
  split
  · exact IsPlain.cons_iff.mpr ⟨by decide, h⟩
  · exact h

theorem isPlain_written (n : Int) : IsPlain (written n).toList := isPlain_signed (isPlain_toDigits _)

theorem isPlain_padded (width n : Nat) : IsPlain (padded width n) :=
  IsPlain.append_iff.mpr ⟨.replicate (by decide) _, isPlain_toDigits n⟩

theorem isPlain_withPoint (h : IsPlain cs) (places : Nat) : IsPlain (withPoint cs places) :=
  IsPlain.append_iff.mpr ⟨h.take _, IsPlain.cons_iff.mpr ⟨by decide, h.drop _⟩⟩

theorem isPlain_exponentMark (e : Int) : IsPlain (exponentMark e) := by
  refine IsPlain.cons_iff.mpr ⟨by decide, IsPlain.cons_iff.mpr ⟨?_, isPlain_padded _ _⟩⟩
  split <;> decide

theorem isPlain_dropTrailingZeros (h : IsPlain cs) : IsPlain (dropTrailingZeros cs) := by
  apply h.of_subset
  intro c hc
  exact List.mem_reverse.mp ((List.dropWhile_sublist _).subset (List.mem_reverse.mp hc))

theorem Digits.isPlain_text (d : Digits) : IsPlain d.text := by
  have hdigits : IsPlain (dropTrailingZeros (decimalDigits d.coefficient)) :=
    isPlain_dropTrailingZeros (isPlain_toDigits _)
  have hzeros (n : Nat) : IsPlain (List.replicate n '0') := .replicate (by decide) n
  unfold Digits.text
  dsimp only
  generalize dropTrailingZeros (decimalDigits d.coefficient) = digits at *
  split
  · split
    · exact IsPlain.append_iff.mpr
        ⟨IsPlain.cons_iff.mpr ⟨by decide, IsPlain.cons_iff.mpr ⟨by decide, hzeros _⟩⟩, hdigits⟩
    · split
      · rw [IsPlain.append_iff, IsPlain.append_iff]
        exact ⟨⟨hdigits, hzeros _⟩, by simp [isPrintable_of_ascii]⟩
      · exact isPlain_withPoint hdigits _
  · split
    · simp [isPrintable_of_ascii]
    · exact IsPlain.cons_iff.mpr ⟨(IsPlain.cons_iff.mp hdigits).1, isPlain_exponentMark _⟩
    · obtain ⟨hfirst, hrest⟩ := IsPlain.cons_iff.mp hdigits
      exact IsPlain.cons_iff.mpr ⟨hfirst, IsPlain.append_iff.mpr
        ⟨IsPlain.cons_iff.mpr ⟨by decide, hrest⟩, isPlain_exponentMark _⟩⟩

theorem isPlain_wordNan : IsPlain wordNan.toList := by simp [wordNan, isPrintable_of_ascii]

theorem isPlain_wordInfinity : IsPlain wordInfinity := by simp [wordInfinity, isPrintable_of_ascii]

theorem isPlain_shortest (x : Float) : IsPlain (shortest x).toList := by
  unfold shortest
  split
  · exact isPlain_wordNan
  · exact isPlain_signed isPlain_wordInfinity
  · apply isPlain_signed
    split
    · simp [isPrintable_of_ascii]
    · exact Digits.isPlain_text _

theorem isPlain_fixed (places : Nat) (x : Float) : IsPlain (fixed places x).toList := by
  unfold fixed
  split
  · exact isPlain_wordNan
  · exact isPlain_signed isPlain_wordInfinity
  · exact isPlain_signed (isPlain_withPoint (isPlain_padded _ _) _)

theorem Quantity.isPlain_text (q : Quantity) : IsPlain q.text.toList := by
  cases q with
  | integer n => exact isPlain_written n
  | double x => exact isPlain_shortest x

theorem Quantity.isPlain_fixed? {places : Nat} {q : Quantity} {text : String}
    (h : q.fixed? places = .ok text) : IsPlain text.toList := by
  obtain ⟨x, -, rfl⟩ := map_eq_ok_iff.mp h
  exact isPlain_fixed places x

end Notation

end Number

namespace Clock
open Text

theorem isPlain_twoPlaces (n : Int) : IsPlain (twoPlaces n).toList := by
  unfold twoPlaces
  split
  · exact isPlain_written n
  · rw [String.toList_ofList]
    exact isPlain_padded 2 _

theorem isPlain_text (seconds : Int) : IsPlain (text seconds).toList := by
  simp [text, isPlain_twoPlaces, isPrintable_of_ascii, toString]

theorem isPlain_formatQuantity? [Host] {q : Quantity} {time : String}
    (h : formatQuantity? q = .ok time) : IsPlain time.toList := by
  cases q with
  | integer n =>
    obtain ⟨x, -, h⟩ := bind_eq_ok_iff.mp h
    obtain ⟨seconds, -, h⟩ := bind_eq_ok_iff.mp h
    cases h
    exact isPlain_text seconds
  | double x =>
    obtain ⟨seconds, -, rfl⟩ := map_eq_ok_iff.mp h
    exact isPlain_text seconds

theorem isPlain_difference? {q r : Quantity} {difference : String}
    (h : difference? q r = .ok difference) : IsPlain difference.toList := by
  obtain ⟨d, -, h⟩ := bind_eq_ok_iff.mp h
  obtain ⟨amount, hamount, h⟩ := bind_eq_ok_iff.mp h
  cases h
  have hplain := Quantity.isPlain_fixed? hamount
  split <;> simp [hplain, isPrintable_of_ascii]

end Clock

namespace Diagnostic
open Text

theorem isPlain_message {text : String} {line : Line} {d : Diagnostic} (h : d.Reports text line) :
    IsPlain d.message.toList := by
  obtain ⟨earlier, letter, later, word, hletters, -, -, -, hmessage⟩ := h.blame
  have hmem : letter ∈ fieldLetters := hletters ▸ List.mem_append_right _ List.mem_cons_self
  have hletter : isPrintable letter = true := by
    have hall : IsPlain fieldLetters := by simp [fieldLetters, isPrintable_of_ascii]
    exact hall letter hmem
  rw [hmessage]
  simp [toString, letterName, hletter, isPlain_written, isPlain_quoted, isPrintable_of_ascii]

theorem isPlain_describe {d : Diagnostic} (h : IsPlain d.message.toList) :
    IsPlain d.describe.toList := by
  simp [describe, toString, h, isPlain_written, isPrintable_of_ascii]

end Diagnostic

theorem Program.isPlain_message {α : Type} [Scalar α] {text : String} {d : Diagnostic}
    (h : d ∈ (parse text : Program α).diagnostics) : Text.IsPlain d.message.toList := by
  rw [diagnostics_parse] at h
  obtain ⟨line, hline, hd⟩ := List.mem_filterMap.mp h
  exact Diagnostic.isPlain_message (Diagnostic.reports_of_diagnostic? hline hd)

end Waterjet
