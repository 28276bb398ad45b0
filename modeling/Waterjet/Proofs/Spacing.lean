import Mathlib.Data.List.DropRight
import Waterjet.Nc.Line

/-! The words of a line are its maximal runs of characters that separate nothing. A text with its
words and the gaps around them is put together in one way only, so cutting it at the gaps undoes any
spacing of the words; and as the words are taken in upper case, the case of its letters is undone
with it. -/
namespace Waterjet
open Text

namespace Text

structure IsWord (w : List Char) : Prop where
  nonempty : w ≠ []
  solid : ∀ c ∈ w, isSeparator c = false

def IsGap (cs : List Char) : Prop := ∀ c ∈ cs, isSeparator c = true

/-- The words stand in the text in this order, each as far as it goes, and nothing but separators
stands around them. -/
inductive Spaced : List (List Char) → List Char → Prop
  | gap {cs : List Char} (h : IsGap cs) : Spaced [] cs
  | word {before w behind : List Char} {ws : List (List Char)} (gap : IsGap before)
      (word : IsWord w) (ends : ∀ c ∈ behind.head?, isSeparator c = true)
      (others : Spaced ws behind) : Spaced (w :: ws) (before ++ (w ++ behind))

theorem words_append_cons {c : Char} (h : isSeparator c = true) (a b : List Char) :
    words (a ++ c :: b) = words a ++ words b := by
  rw [words, List.splitOnP_append_cons a b h, List.filter_append]
  rfl

theorem words_gap_append {gap : List Char} (h : IsGap gap) (cs : List Char) :
    words (gap ++ cs) = words cs := by
  induction gap with
  | nil => rfl
  | cons c gap ih =>
    have hcons : words (c :: (gap ++ cs)) = words (gap ++ cs) :=
      words_append_cons (h c List.mem_cons_self) [] (gap ++ cs)
    rw [List.cons_append, hcons, ih fun d hd => h d (List.mem_cons_of_mem c hd)]

theorem words_eq_nil {gap : List Char} (h : IsGap gap) : words gap = [] := by
  rw [← List.append_nil gap, words_gap_append h]
  rfl

theorem words_append_gap (cs : List Char) {gap : List Char} (h : IsGap gap) :
    words (cs ++ gap) = words cs := by
  cases gap with
  | nil => rw [List.append_nil]
  | cons c gap =>
    have hrest : words gap = [] := words_eq_nil fun d hd => h d (List.mem_cons_of_mem c hd)
    rw [words_append_cons (h c List.mem_cons_self), hrest, List.append_nil]

theorem words_word_append {w behind : List Char} (hword : IsWord w)
    (hends : ∀ c ∈ behind.head?, isSeparator c = true) :
    words (w ++ behind) = w :: words behind := by
  have halone : words w = [w] := by
    rw [words, List.splitOnP_eq_singleton hword.solid]
    simp [hword.nonempty]
  cases behind with
  | nil =>
    rw [List.append_nil, halone]
    rfl
  | cons c rest =>
    have hc : isSeparator c = true := hends c rfl
    have hrest : words (c :: rest) = words rest := words_append_cons hc [] rest
    rw [words_append_cons hc, halone, hrest, List.singleton_append]

namespace Spaced

theorem words_eq {ws : List (List Char)} {cs : List Char} (h : Spaced ws cs) : words cs = ws := by
  induction h with
  | gap h => exact words_eq_nil h
  | word hgap hword hends _ ih => rw [words_gap_append hgap, words_word_append hword hends, ih]

theorem cons_separator {c : Char} (hc : isSeparator c = true) {ws : List (List Char)}
    {cs : List Char} (h : Spaced ws cs) : Spaced ws (c :: cs) := by
  cases h with
  | gap h => exact .gap (List.forall_mem_cons.mpr ⟨hc, h⟩)
  | word hgap hword hends h => exact .word (List.forall_mem_cons.mpr ⟨hc, hgap⟩) hword hends h

/-- What is no separator becomes a word of its own or joins the word that it stands before. -/
theorem exists_cons {c : Char} (hc : isSeparator c = false) {ws : List (List Char)}
    {cs : List Char} (h : Spaced ws cs) : ∃ w ws', Spaced ((c :: w) :: ws') (c :: cs) := by
  have hsolo : IsWord [c] := ⟨List.cons_ne_nil c [], by simpa using hc⟩
  have hnone : IsGap [] := nofun
  cases h with
  | gap h =>
    have hends : ∀ d ∈ cs.head?, isSeparator d = true := fun d hd => h d (List.mem_of_head? hd)
    exact ⟨[], [], .word hnone hsolo hends (.gap h)⟩
  | @word before w behind ws hgap hword hends h =>
    cases before with
    | nil =>
      have hlonger : IsWord (c :: w) :=
        ⟨List.cons_ne_nil c w, List.forall_mem_cons.mpr ⟨hc, hword.solid⟩⟩
      exact ⟨w, ws, .word hnone hlonger hends h⟩
    | cons d before =>
      have hd : ∀ e ∈ ((d :: before) ++ (w ++ behind)).head?, isSeparator e = true := by
        simpa using hgap d List.mem_cons_self
      exact ⟨[], w :: ws, .word hnone hsolo hd (.word hgap hword hends h)⟩

theorem isWord {ws : List (List Char)} {cs : List Char} (h : Spaced ws cs) :
    ∀ w ∈ ws, IsWord w := by
  induction h with
  | gap h => exact fun w hw => absurd hw List.not_mem_nil
  | word _ hword _ _ ih => exact List.forall_mem_cons.mpr ⟨hword, ih⟩

/-- Separators are all that the words leave out. -/
theorem flatten_eq {ws : List (List Char)} {cs : List Char} (h : Spaced ws cs) :
    ws.flatten = cs.filter (!isSeparator ·) := by
  have hgap {gap : List Char} (h : IsGap gap) : gap.filter (!isSeparator ·) = [] :=
    List.filter_eq_nil_iff.mpr fun c hc => by simp [h c hc]
  induction h with
  | gap h => rw [hgap h, List.flatten_nil]
  | word hbefore hword _ _ ih =>
    have hsolid := List.filter_eq_self.mpr fun c hc => congrArg (!·) (hword.solid c hc)
    rw [List.filter_append, List.filter_append, hgap hbefore, hsolid, List.flatten_cons, ih]
    rfl

end Spaced

theorem spaced_words (cs : List Char) : Spaced (words cs) cs := by
  induction cs with
  | nil => exact .gap nofun
  | cons c cs ih =>
    cases hc : isSeparator c with
    | true =>
      have hwords : words (c :: cs) = words cs := words_append_cons hc [] cs
      rw [hwords]
      exact ih.cons_separator hc
    | false =>
      obtain ⟨w, ws, h⟩ := ih.exists_cons hc
      rw [h.words_eq]
      exact h

/-- A text has its words in one way only. -/
theorem words_eq_iff {cs : List Char} {ws : List (List Char)} : words cs = ws ↔ Spaced ws cs :=
  ⟨fun h => h ▸ spaced_words cs, Spaced.words_eq⟩

theorem words_cons {c : Char} (hc : isSeparator c = false) (cs : List Char) :
    ∃ w ws, words (c :: cs) = (c :: w) :: ws := by
  obtain ⟨w, ws, h⟩ := (spaced_words cs).exists_cons hc
  exact ⟨w, ws, h.words_eq⟩

section Case

/-- The code points of the separators. -/
def separatorCodes : List Nat := [
  0x09, 0x0A, 0x0B, 0x0C, 0x0D, 0x1C, 0x1D, 0x1E, 0x1F, 0x20, 0x2C, 0x85, 0xA0, 0x1680, 0x2000,
  0x2001, 0x2002, 0x2003, 0x2004, 0x2005, 0x2006, 0x2007, 0x2008, 0x2009, 0x200A, 0x2028, 0x2029,
  0x202F, 0x205F, 0x3000]

theorem mem_separatorCodes {c : Char} (h : isSeparator c = true) : c.toNat ∈ separatorCodes := by
  by_cases hcomma : c = ','
  · subst hcomma
    decide
  · simp only [isSeparator, isBlank, Bool.or_eq_true, Bool.and_eq_true, decide_eq_true_eq,
      beq_iff_eq, hcomma, or_false] at h
    simp only [separatorCodes, List.mem_cons, List.not_mem_nil, or_false]
    omega

theorem forall_separator {P : Char → Prop} (h : ∀ n ∈ separatorCodes, P (Char.ofNat n)) {c : Char}
    (hc : isSeparator c = true) : P c := by
  have hcode := h c.toNat (mem_separatorCodes hc)
  rwa [Char.ofNat_toNat] at hcode

theorem forall_ascii {P : Char → Prop} (h : ∀ n < 0x80, P (Char.ofNat n)) {c : Char}
    (hc : c.toNat < 0x80) : P c := by
  have hcode := h c.toNat hc
  rwa [Char.ofNat_toNat] at hcode

theorem upperChar_of_isSeparator {c : Char} (h : isSeparator c = true) : upperChar c = [c] :=
  forall_separator (P := fun c => upperChar c = [c]) (by decide) h

theorem upper_gap {gap : List Char} (h : IsGap gap) : upper gap = gap := by
  have hfixed : upper gap = gap.flatMap fun c => [c] :=
    List.flatMap_congr fun c hc => upperChar_of_isSeparator (h c hc)
  rw [hfixed, List.flatMap_singleton']

theorem toLower_eq_self {c : Char} (h : 0x80 ≤ c.toNat) : c.toLower = c := by
  unfold Char.toLower
  rw [dif_neg]
  rintro ⟨-, hz⟩
  have hle : c.toNat ≤ 90 := UInt32.le_iff_toNat_le.mp hz
  omega

/-- The case of an ASCII letter is lost in upper case. -/
theorem upperChar_toLower (c : Char) : upperChar c.toLower = upperChar c := by
  rcases Nat.lt_or_ge c.toNat 0x80 with hascii | hbeyond
  · exact forall_ascii (P := fun c => upperChar c.toLower = upperChar c) (by decide) hascii
  · rw [toLower_eq_self hbeyond]

theorem upper_congr_toLower {a b : List Char} (h : a.map Char.toLower = b.map Char.toLower) :
    upper a = upper b := by
  have hlower (cs : List Char) : upper (cs.map Char.toLower) = upper cs := by
    rw [upper, List.flatMap_map]
    exact List.flatMap_congr fun c _ => upperChar_toLower c
  rw [← hlower a, h, hlower]

theorem Spaced.upper_eq {ws : List (List Char)} {cs : List Char} (h : Spaced ws cs)
    (hws : ∀ w ∈ ws, upper w = w) : upper cs = cs := by
  induction h with
  | gap h => exact upper_gap h
  | word hgap _ _ _ ih =>
    obtain ⟨hw, hws⟩ := List.forall_mem_cons.mp hws
    rw [upper_append, upper_append, upper_gap hgap, hw, ih hws]

end Case

section Strip

theorem isSeparator_of_isBlank {c : Char} (h : isBlank c = true) : isSeparator c = true := by
  rw [isSeparator, h, Bool.true_or]

theorem strip_parts (cs : List Char) : ∃ before behind, IsGap before ∧ IsGap behind ∧
    before ++ (strip cs ++ behind) = cs := by
  refine ⟨cs.takeWhile isBlank, (cs.dropWhile isBlank).rtakeWhile isBlank, ?_, ?_, ?_⟩
  · exact fun c hc => isSeparator_of_isBlank (List.mem_takeWhile_imp hc)
  · exact fun c hc => isSeparator_of_isBlank (List.mem_rtakeWhile_imp hc)
  · have hbehind : strip cs ++ (cs.dropWhile isBlank).rtakeWhile isBlank = cs.dropWhile isBlank :=
      List.rdropWhile_append_rtakeWhile
    rw [hbehind, List.takeWhile_append_dropWhile]

/-- No word is lost with the white space at the ends. -/
theorem words_upper_strip (cs : List Char) : words (upper (strip cs)) = words (upper cs) := by
  obtain ⟨before, behind, hbefore, hbehind, hcs⟩ := strip_parts cs
  conv => rhs; rw [← hcs]
  rw [upper_append, upper_append, upper_gap hbefore, upper_gap hbehind, words_gap_append hbefore,
    words_append_gap _ hbehind]

end Strip

end Text

namespace Nc

theorem words_classify {n : Int} {raw : String} (h : (classify n raw).kind = .command) :
    (classify n raw).words = (Text.words (upper (strip raw.toList))).map String.ofList := by
  unfold classify at h ⊢
  dsimp only at h ⊢
  split at h
  · cases h
  split at h
  · cases h
  next hbody hcomment => rw [if_neg hbody, if_neg hcomment]

/-- A line whose words begin with no comment mark is a command. -/
theorem classify_of_words {n : Int} {raw : String} {w : List Char} {ws : List (List Char)}
    (hwords : Text.words (upper raw.toList) = w :: ws) (hw : startsComment w = false) :
    classify n raw = ⟨n, raw, .command, (w :: ws).map String.ofList⟩ := by
  have hbody : Text.words (upper (strip raw.toList)) = w :: ws := by
    rw [words_upper_strip, hwords]
  have hfull : (strip raw.toList).isEmpty = false := by
    cases hstrip : strip raw.toList with
    | nil =>
      rw [hstrip] at hbody
      cases hbody
    | cons c cs => rfl
  have hplain : startsComment (strip raw.toList) = false := by
    cases hstrip : strip raw.toList with
    | nil => rfl
    | cons c cs =>
      rw [hstrip] at hbody
      by_contra hmark
      obtain ⟨hupper, hseparator⟩ : upperChar c = [c] ∧ isSeparator c = false := by
        have hc : c = ';' ∨ c = '(' := by simpa [startsComment, or_iff_not_imp_left] using hmark
        rcases hc with rfl | rfl <;> decide
      obtain ⟨v, vs, hv⟩ := words_cons hseparator (upper cs)
      have hcons : upper (c :: cs) = c :: upper cs := by
        rw [upper, List.flatMap_cons, hupper]
        rfl
      rw [hcons, hv, List.cons.injEq] at hbody
      rw [← hbody.1] at hw
      exact hmark hw
  unfold classify
  dsimp only
  rw [hfull, hplain, hbody]
  rfl

/-- The words of a command line are the maximal runs of what separates nothing in its upper case
without the white space around it. And whatever words in upper case are written with separators
between them, if they begin with no comment mark, are the words of the line in any case of its ASCII
letters. -/
theorem words_classify_spaced (n : Int) :
    (∀ raw, (classify n raw).kind = .command →
      (∀ ws : List String, (classify n raw).words = ws ↔
        Spaced (ws.map String.toList) (upper (strip raw.toList))) ∧
      (∀ w ∈ (classify n raw).words, IsWord w.toList) ∧
      ((classify n raw).words.map String.toList).flatten =
        (upper (strip raw.toList)).filter (!isSeparator ·)) ∧
    ∀ (ws : List String) (line : List Char) (raw : String), ws ≠ [] →
      (∀ w ∈ ws, upper w.toList = w.toList) →
      (∀ w ∈ ws.head?, startsComment w.toList = false) →
      Spaced (ws.map String.toList) line →
      raw.toList.map Char.toLower = line.map Char.toLower →
      classify n raw = ⟨n, raw, .command, ws⟩ := by
  have hchars (ws : List String) : (ws.map String.toList).map String.ofList = ws := by
    rw [List.map_map]
    simp [Function.comp_def]
  constructor
  · intro raw hraw
    have hwords := words_classify hraw
    have hspaced : Spaced ((classify n raw).words.map String.toList)
        (upper (strip raw.toList)) := by
      rw [hwords, List.map_map]
      simpa [Function.comp_def] using spaced_words (upper (strip raw.toList))
    refine ⟨fun ws => ⟨fun h => h ▸ hspaced, fun h => ?_⟩, ?_, hspaced.flatten_eq⟩
    · rw [hwords, h.words_eq, hchars]
    · exact fun w hw => hspaced.isWord _ (List.mem_map_of_mem hw)
  · intro ws line raw hne hupper hmark hspaced hcase
    have hfixed : upper line = line :=
      hspaced.upper_eq (List.forall_mem_map.mpr hupper)
    have hwords : Text.words (upper raw.toList) = ws.map String.toList := by
      rw [upper_congr_toLower hcase, hfixed, hspaced.words_eq]
    cases ws with
    | nil => exact absurd rfl hne
    | cons w ws =>
      rw [classify_of_words hwords (hmark w rfl)]
      rw [← List.map_cons, hchars]

/-- A line that is spaced and written at will. -/
theorem words_classify_spaced_at_line :
    let raw := " ,g01\t,x10 , \u3000Y-2.5É\r"
    (classify 3 raw).kind = .command ∧
      classify 3 raw = ⟨3, raw, .command, ["G01", "X10", "Y-2.5É"]⟩ ∧
      Spaced ["G01".toList, "X10".toList, "Y-2.5É".toList] (upper (strip raw.toList)) := by
  intro raw
  let line := " ,G01\t,X10 , \u3000Y-2.5É\r".toList
  have hspaced : Spaced ["G01".toList, "X10".toList, "Y-2.5É".toList] line := by
    have hwords : Text.words line = ["G01".toList, "X10".toList, "Y-2.5É".toList] := by
      decide +kernel
    exact words_eq_iff.mp hwords
  have hraw : classify 3 raw = ⟨3, raw, .command, ["G01", "X10", "Y-2.5É"]⟩ :=
    (words_classify_spaced 3).2 ["G01", "X10", "Y-2.5É"] line raw (by decide) (by decide +kernel)
      (by decide +kernel) hspaced (by decide +kernel)
  have hkind : (classify 3 raw).kind = .command := by rw [hraw]
  have hwords : (classify 3 raw).words = ["G01", "X10", "Y-2.5É"] := by rw [hraw]
  exact ⟨hkind, hraw, ((words_classify_spaced 3).1 raw hkind).1 _ |>.mp hwords⟩

end Nc

end Waterjet
