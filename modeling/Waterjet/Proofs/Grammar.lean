import Waterjet.Number.Literal
import Waterjet.Proofs.Nearest
import Waterjet.Proofs.Numerals
import Waterjet.Proofs.Spacing
import Waterjet.Proofs.Verdict

/-! The grammar of numbers. A word is read if and only if a numeral stands behind its letter: a
sign, digits with a point among them or at either end, and an exponent. The reader of settings takes
each of these numerals for the same double, the one nearest to what it denotes; what it takes beyond
them has underscores in it, white space around it, or a word in place of the digits. -/
namespace Waterjet
open Text Nc

namespace Number

/-- The signs that a number may have. -/
def signs : List (List Char) := [[], ['+'], ['-']]

def isMinus (sign : List Char) : Bool := sign == ['-']

/-- What digits of any script say, the last one counting ones. -/
def positional (digits : List Char) : Nat :=
  Nat.ofDigits 10 (digits.reverse.map fun c => (digit? c).getD 0)

/-- The letter, a sign if any, and at least one digit. -/
structure Exponent where
  letter : Char
  sign : List Char
  digits : List Char
  isLetter : letter = 'e' ∨ letter = 'E'
  isSign : sign ∈ signs
  isDigits : ∀ c ∈ digits, isDigit c = true
  nonempty : digits ≠ []

/-- A numeral as it is written. A point may stand first or last, but not without a digit. -/
structure Numeral where
  sign : List Char
  whole : List Char
  fraction : Option (List Char)
  exponent : Option Exponent
  isSign : sign ∈ signs
  isWhole : ∀ c ∈ whole, isDigit c = true
  isFraction : ∀ digits ∈ fraction, ∀ c ∈ digits, isDigit c = true
  nonempty : whole ≠ [] ∨ ∃ digits ∈ fraction, digits ≠ []

namespace Exponent

def chars (e : Exponent) : List Char := e.letter :: (e.sign ++ e.digits)

def value (e : Exponent) : ℤ := if isMinus e.sign then -positional e.digits else positional e.digits

end Exponent

namespace Numeral

def unsigned (n : Numeral) : List Char :=
  n.whole ++ (n.fraction.elim [] ('.' :: ·) ++ n.exponent.elim [] Exponent.chars)

def chars (n : Numeral) : List Char := n.sign ++ n.unsigned

def negative (n : Numeral) : Bool := isMinus n.sign

/-- What the numeral denotes, apart from the sign. -/
def magnitude (n : Numeral) : ℚ :=
  (positional n.whole + positional (n.fraction.getD []) / 10 ^ (n.fraction.getD []).length) *
    (10 : ℚ) ^ (n.exponent.elim 0 Exponent.value)

/-- The numeral as it is read. -/
def decimal (n : Numeral) : Decimal :=
  ⟨n.negative, digitsValue (n.whole ++ n.fraction.getD []),
    n.exponent.elim 0 Exponent.value - (n.fraction.getD []).length⟩

end Numeral

section Reading

theorem positional_eq (digits : List Char) : positional digits = digitsValue digits := by
  induction digits with
  | nil => rfl
  | cons c cs ih =>
    have hcons : digitsValue (c :: cs) = digitsValue [c] * 10 ^ cs.length + digitsValue cs :=
      digitsValue_append [c] cs
    have hone : digitsValue [c] = (digit? c).getD 0 := Nat.zero_add _
    unfold positional at ih ⊢
    rw [List.reverse_cons, List.map_append, Nat.ofDigits_append, ih, hcons, hone, List.length_map,
      List.length_reverse, List.map_singleton, Nat.ofDigits_singleton]
    ring

theorem Numeral.value_decimal (n : Numeral) : n.decimal.magnitude.value = n.magnitude := by
  have hten : (10 : ℚ) ≠ 0 := by norm_num
  have hdecimal : n.decimal.magnitude.value =
      (n.decimal.coefficient : ℚ) * (10 : ℚ) ^ n.decimal.exponent := by
    rw [Decimal.magnitude, Ratio.value_scale (by decide), Ratio.value_ofNat]
    rfl
  rw [hdecimal]
  unfold decimal magnitude
  rw [digitsValue_append, positional_eq, positional_eq, zpow_sub₀ hten, zpow_natCast]
  push_cast
  field_simp

theorem takeSign_append {sign : List Char} (h : sign ∈ signs) {cs : List Char}
    (hcs : ∀ c ∈ cs.head?, c ≠ '+' ∧ c ≠ '-') : takeSign (sign ++ cs) = (isMinus sign, cs) := by
  simp only [signs, List.mem_cons, List.not_mem_nil, or_false] at h
  obtain rfl | rfl | rfl := h
  · cases cs with
    | nil => rfl
    | cons c cs =>
      obtain ⟨hplus, hminus⟩ := hcs c rfl
      rw [List.nil_append]
      unfold takeSign
      split
      · next heq => exact absurd (List.cons.inj heq).1 hminus
      · next heq => exact absurd (List.cons.inj heq).1 hplus
      · rfl
  · rfl
  · rfl

theorem exists_sign (cs : List Char) : ∃ sign ∈ signs, sign ++ (takeSign cs).2 = cs := by
  unfold takeSign
  split
  · exact ⟨['-'], by decide, rfl⟩
  · exact ⟨['+'], by decide, rfl⟩
  · exact ⟨[], by decide, rfl⟩

/-- Every digit is none of the other characters of a numeral. -/
theorem ne_of_digit {c d : Char} (hc : isDigit c = true) (hd : isDigit d = false) : c ≠ d := by
  rintro rfl
  exact Bool.noConfusion (hc.symm.trans hd)

theorem Exponent.reads (e : Exponent) : exponentPart? e.chars = some e.value := by
  have hsign : takeSign (e.sign ++ e.digits) = (isMinus e.sign, e.digits) :=
    takeSign_append e.isSign fun c hc =>
      have hdigit := e.isDigits c (List.mem_of_head? hc)
      ⟨ne_of_digit hdigit (by decide), ne_of_digit hdigit (by decide)⟩
  have hletter : (e.letter == 'e' || e.letter == 'E') = true := by
    rcases e.isLetter with heq | heq <;> rw [heq] <;> rfl
  have hdigits : (!e.digits.isEmpty && e.digits.all isDigit) = true := by
    simpa [e.nonempty] using e.isDigits
  rw [chars, exponentPart?, if_pos hletter, hsign]
  dsimp only
  rw [if_pos hdigits, value, positional_eq]

theorem exists_exponent {cs : List Char} {value : ℤ} (h : exponentPart? cs = some value) :
    ∃ exponent : Option Exponent, exponent.elim [] Exponent.chars = cs := by
  cases cs with
  | nil => exact ⟨none, rfl⟩
  | cons c rest =>
    rw [exponentPart?] at h
    split at h
    next hletter =>
      obtain ⟨sign, hsign, hrest⟩ := exists_sign rest
      dsimp only at h
      split at h
      next hdigits =>
        rw [Bool.and_eq_true, List.all_eq_true] at hdigits
        exact ⟨some ⟨c, sign, (takeSign rest).2, by simpa using hletter, hsign, hdigits.2,
          by simpa using hdigits.1⟩, congrArg (c :: ·) hrest⟩
      · cases h
    · cases h

theorem exponentPart?_elim (exponent : Option Exponent) :
    exponentPart? (exponent.elim [] Exponent.chars) = some (exponent.elim 0 Exponent.value) := by
  cases exponent with
  | none => rfl
  | some e => exact e.reads

theorem head_elim (exponent : Option Exponent) :
    ∀ c ∈ (exponent.elim [] Exponent.chars).head?, isDigit c = false ∧ c ≠ '.' := by
  intro c hc
  cases exponent with
  | none => cases hc
  | some e =>
    have hletter : e.letter = c := Option.some.inj hc
    rcases e.isLetter with heq | heq <;> rw [← hletter, heq] <;> decide

theorem takeFraction_append {fraction : Option (List Char)}
    (h : ∀ digits ∈ fraction, ∀ c ∈ digits, isDigit c = true) {rest : List Char}
    (hrest : ∀ c ∈ rest.head?, isDigit c = false ∧ c ≠ '.') :
    takeFraction (fraction.elim [] ('.' :: ·) ++ rest) = (fraction.getD [], rest) := by
  cases fraction with
  | none =>
    rw [Option.elim_none, List.nil_append]
    unfold takeFraction
    split
    · exact absurd rfl (hrest '.' rfl).2
    · rfl
  | some digits =>
    obtain ⟨htake, hdrop⟩ := takeWhile_append_of_head (h digits rfl) fun c hc => (hrest c hc).1
    rw [Option.elim_some, List.cons_append, takeFraction, htake, hdrop]
    rfl

theorem exists_fraction (cs : List Char) : ∃ fraction : Option (List Char),
    (∀ digits ∈ fraction, ∀ c ∈ digits, isDigit c = true) ∧
      fraction.elim [] ('.' :: ·) ++ (takeFraction cs).2 = cs ∧
      fraction.getD [] = (takeFraction cs).1 := by
  unfold takeFraction
  split
  next rest =>
    refine ⟨some (rest.takeWhile isDigit), ?_, ?_, rfl⟩
    · rintro digits hdigits c hc
      cases hdigits
      exact List.mem_takeWhile_imp hc
    · exact congrArg ('.' :: ·) List.takeWhile_append_dropWhile
  · exact ⟨none, nofun, rfl, rfl⟩

theorem Numeral.head_unsigned (n : Numeral) :
    ∀ c ∈ n.unsigned.head?, isDigit c = true ∨ c = '.' := by
  intro c hc
  unfold unsigned at hc
  cases hwhole : n.whole with
  | nil =>
    obtain ⟨digits, hdigits, -⟩ := n.nonempty.resolve_left (not_not.mpr hwhole)
    rw [hwhole, Option.mem_def.mp hdigits] at hc
    exact .inr (Option.some.inj hc).symm
  | cons d whole =>
    rw [hwhole] at hc
    have hd : isDigit d = true := n.isWhole d (hwhole ▸ List.mem_cons_self)
    exact .inl (Option.some.inj hc ▸ hd)

/-- Each numeral is read as what it denotes. -/
theorem Numeral.reads (n : Numeral) : Decimal.ofChars? n.chars = some n.decimal := by
  let tail := n.exponent.elim [] Exponent.chars
  have htail := head_elim n.exponent
  have hfraction : takeFraction (n.fraction.elim [] ('.' :: ·) ++ tail) =
      (n.fraction.getD [], tail) := takeFraction_append n.isFraction htail
  have hbehind : ∀ c ∈ (n.fraction.elim [] ('.' :: ·) ++ tail).head?, isDigit c = false := by
    intro c hc
    cases hf : n.fraction with
    | none =>
      rw [hf] at hc
      exact (htail c hc).1
    | some digits =>
      rw [hf] at hc
      cases hc
      decide
  obtain ⟨htake, hdrop⟩ := takeWhile_append_of_head n.isWhole hbehind
  have hunsigned : ∀ c ∈ n.unsigned.head?, c ≠ '+' ∧ c ≠ '-' := by
    intro c hc
    rcases n.head_unsigned c hc with hdigit | rfl
    · exact ⟨ne_of_digit hdigit (by decide), ne_of_digit hdigit (by decide)⟩
    · decide
  have hsign : takeSign n.chars = (n.negative, n.unsigned) := takeSign_append n.isSign hunsigned
  have hdigit : (n.whole.isEmpty && (n.fraction.getD []).isEmpty) = false := by
    rcases n.nonempty with hwhole | ⟨digits, hdigits, hne⟩
    · simp [hwhole]
    · rw [Option.mem_def] at hdigits
      simp [hdigits, hne]
  unfold Decimal.ofChars?
  rw [hsign]
  dsimp only [Numeral.unsigned]
  rw [htake, hdrop, hfraction]
  dsimp only
  rw [hdigit, exponentPart?_elim]
  rfl

/-- What is read is a numeral. -/
theorem exists_numeral {cs : List Char} {d : Decimal} (h : Decimal.ofChars? cs = some d) :
    ∃ n : Numeral, n.chars = cs := by
  obtain ⟨sign, hsign, hcs⟩ := exists_sign cs
  unfold Decimal.ofChars? at h
  dsimp only at h
  generalize (takeSign cs).2 = unsigned at *
  obtain ⟨fraction, hfraction, hbehind, hdigits⟩ := exists_fraction (unsigned.dropWhile isDigit)
  split at h
  · cases h
  next hdigit =>
  obtain ⟨value, hvalue, -⟩ := Option.map_eq_some_iff.mp h
  obtain ⟨exponent, htail⟩ := exists_exponent hvalue
  have hnonempty : unsigned.takeWhile isDigit ≠ [] ∨ ∃ digits ∈ fraction, digits ≠ [] := by
    rw [← hdigits, Bool.and_eq_true, List.isEmpty_iff, List.isEmpty_iff, not_and_or] at hdigit
    refine hdigit.imp_right fun hne => ?_
    cases fraction with
    | none => exact absurd rfl hne
    | some digits => exact ⟨digits, rfl, hne⟩
  refine ⟨⟨sign, unsigned.takeWhile isDigit, fraction, exponent, hsign,
    fun c => List.mem_takeWhile_imp, hfraction, hnonempty⟩, ?_⟩
  change sign ++ (unsigned.takeWhile isDigit ++ (_ ++ _)) = cs
  rw [htail, hbehind, List.takeWhile_append_dropWhile, hcs]

/-- The reader takes the numerals and nothing else. -/
theorem isSome_ofChars?_iff (cs : List Char) :
    (Decimal.ofChars? cs).isSome = true ↔ ∃ n : Numeral, n.chars = cs := by
  constructor
  · intro h
    obtain ⟨d, hd⟩ := Option.isSome_iff_exists.mp h
    exact exists_numeral hd
  · rintro ⟨n, rfl⟩
    rw [n.reads]
    rfl

end Reading

section Agreement

/-- White space at either end. -/
def IsPadded (cs : List Char) : Prop :=
  (∃ c ∈ cs.head?, isBlank c = true) ∨ ∃ c ∈ cs.getLast?, isBlank c = true

def valueWords : List (List Char) := ["inf".toList, "infinity".toList, "nan".toList]

/-- A word for infinity or for what is not a number, in any case and with any sign. -/
def SpellsWord (cs : List Char) : Prop :=
  ∃ sign ∈ signs, ∃ word, sign ++ word = cs ∧ word.map Char.toLower ∈ valueWords

theorem isSome_wordValue?_iff (negative : Bool) (word : List Char) :
    (wordValue? negative word).isSome = true ↔ word.map Char.toLower ∈ valueWords := by
  unfold wordValue? valueWords
  generalize word.map Char.toLower = cs
  have hword (w : String) : String.ofList cs = w ↔ cs = w.toList := by
    rw [← String.toList_inj, String.toList_ofList]
  simp only [Bool.or_eq_true, beq_iff_eq, hword, List.mem_cons, List.not_mem_nil, or_false]
  split
  next h => exact iff_of_true rfl (or_assoc.mp (.inl h))
  next h =>
    split
    next h' => exact iff_of_true rfl (.inr (.inr h'))
    next h' => exact iff_of_false nofun fun hword => (or_assoc.mpr hword).elim h h'

theorem spellsWord_iff (negative : Bool) (cs : List Char) :
    SpellsWord cs ↔ (wordValue? negative (takeSign cs).2).isSome = true := by
  rw [isSome_wordValue?_iff]
  constructor
  · rintro ⟨sign, hsign, word, rfl, hword⟩
    have hhead : ∀ c ∈ word.head?, c ≠ '+' ∧ c ≠ '-' := by
      intro c hc
      have hletters : ∀ w ∈ valueWords, '+'.toLower ∉ w.head? ∧ '-'.toLower ∉ w.head? := by decide
      have hlower : c.toLower ∈ (word.map Char.toLower).head? := by
        rw [List.head?_map]
        exact Option.mem_map_of_mem Char.toLower hc
      have hnone := hletters _ hword
      constructor
      · rintro rfl
        exact hnone.1 hlower
      · rintro rfl
        exact hnone.2 hlower
    rwa [takeSign_append hsign hhead]
  · intro hword
    obtain ⟨sign, hsign, hcs⟩ := exists_sign cs
    exact ⟨sign, hsign, _, hcs, hword⟩

theorem joinGroups?_of_not_mem (afterDigit : Bool) {cs : List Char} (h : '_' ∉ cs) :
    joinGroups? afterDigit cs = some cs := by
  induction cs generalizing afterDigit with
  | nil => rfl
  | cons c cs ih =>
    obtain ⟨hc, hcs⟩ := List.ne_and_not_mem_of_not_mem_cons h
    have hne : ¬ (c == '_') = true := by simpa using hc.symm
    rw [joinGroups?, if_neg hne, ih _ hcs]
    · rfl
    · exact fun _ rest heq _ => hc heq.symm

theorem trim_of_not_padded {cs : List Char} (h : ¬ IsPadded cs) : trim isPadding cs = cs := by
  have hblank {c : Char} (hc : isBlank c = false) : isPadding c = false := by
    rw [isPadding, hc, Bool.false_and]
  obtain ⟨hfirst, hlast⟩ := not_or.mp h
  have hfront : cs.dropWhile isPadding = cs := by
    cases cs with
    | nil => rfl
    | cons c rest =>
      have hc : isBlank c = false := Bool.eq_false_iff.mpr fun hc => hfirst ⟨c, rfl, hc⟩
      exact List.dropWhile_cons_of_neg (Bool.eq_false_iff.mp (hblank hc))
  have hback : cs.rdropWhile isPadding = cs := by
    rw [List.rdropWhile_eq_self_iff]
    intro hne hpadding
    have hc : isBlank (cs.getLast hne) = false := Bool.eq_false_iff.mpr fun hc =>
      hlast ⟨_, List.getLast?_eq_some_getLast hne, hc⟩
    exact Bool.noConfusion (hpadding.symm.trans (hblank hc))
  rw [trim, hfront]
  exact hback

/-- Without underscores, white space around it or a word in it, a text is read as a numeral. -/
theorem double?_eq {cs : List Char} (hjoined : '_' ∉ cs) (hpadded : ¬ IsPadded cs)
    (hword : ¬ SpellsWord cs) : double? cs = (Decimal.ofChars? cs).map Decimal.toDouble := by
  have hnone : wordValue? (takeSign cs).1 (takeSign cs).2 = none := by
    rw [spellsWord_iff (takeSign cs).1, Bool.not_eq_true, Option.isSome_eq_false_iff] at hword
    exact Option.isNone_iff_eq_none.mp hword
  unfold double?
  rw [trim_of_not_padded hpadded, joinGroups?_of_not_mem false hjoined]
  simp only [Option.bind_eq_bind, Option.bind_some]
  rw [hnone]

section Characters

/-- The characters of a numeral besides its digits. -/
def numeralMarks : List Char := ['+', '-', '.', 'e', 'E']

namespace Numeral

variable (n : Numeral)

theorem mem_chars {c : Char} (hc : c ∈ n.chars) : isDigit c = true ∨ c ∈ numeralMarks := by
  have hsigns : ∀ sign ∈ signs, sign ⊆ numeralMarks := by decide
  unfold chars unsigned at hc
  simp only [List.mem_append] at hc
  rcases hc with hc | hc | hc | hc
  · exact .inr (hsigns _ n.isSign hc)
  · exact .inl (n.isWhole c hc)
  · cases hfraction : n.fraction with
    | none => simp [hfraction] at hc
    | some digits =>
      rw [hfraction] at hc
      rcases List.mem_cons.mp hc with rfl | hc
      · exact .inr (by decide)
      · exact .inl (n.isFraction digits hfraction c hc)
  · cases hexponent : n.exponent with
    | none => simp [hexponent] at hc
    | some e =>
      rw [hexponent] at hc
      rcases List.mem_cons.mp hc with rfl | hc
      · rcases e.isLetter with heq | heq <;> rw [heq] <;> exact .inr (by decide)
      · rcases List.mem_append.mp hc with hc | hc
        · exact .inr (hsigns _ e.isSign hc)
        · exact .inl (e.isDigits c hc)

theorem not_mem_chars {c : Char} (hdigit : isDigit c = false) (hmark : c ∉ numeralMarks) :
    c ∉ n.chars := fun hc =>
  (n.mem_chars hc).elim (fun hc => Bool.noConfusion (hc.symm.trans hdigit)) hmark

theorem not_padded : ¬ IsPadded n.chars := by
  have hblank {c : Char} (hc : isBlank c = true) : c ∉ n.chars := by
    obtain ⟨hdigit, hmark⟩ : isDigit c = false ∧ c ∉ numeralMarks :=
      forall_separator (P := fun c => isDigit c = false ∧ c ∉ numeralMarks) (by decide)
        (isSeparator_of_isBlank hc)
    exact n.not_mem_chars hdigit hmark
  rintro (⟨c, hc, hblank'⟩ | ⟨c, hc, hblank'⟩)
  · exact hblank hblank' (List.mem_of_head? hc)
  · exact hblank hblank' (List.mem_of_getLast? hc)

theorem not_spellsWord : ¬ SpellsWord n.chars := by
  rintro ⟨sign, -, word, hword, hvalue⟩
  -- Each of the words has an n in it, and no numeral has.
  have hn : ∀ w ∈ valueWords, 'n' ∈ w := by decide
  obtain ⟨c, hc, hlower⟩ := List.mem_map.mp (hn _ hvalue)
  have hmem : c ∈ n.chars := hword ▸ List.mem_append_right sign hc
  rcases Nat.lt_or_ge c.toNat 0x80 with hascii | hbeyond
  · obtain ⟨hdigit, hmark⟩ : isDigit c = false ∧ c ∉ numeralMarks :=
      forall_ascii (P := fun c => c.toLower = 'n' → isDigit c = false ∧ c ∉ numeralMarks)
        (by decide) hascii hlower
    exact n.not_mem_chars hdigit hmark hmem
  · rw [toLower_eq_self hbeyond] at hlower
    subst hlower
    exact absurd hbeyond (by decide)

theorem not_mem_underscore : '_' ∉ n.chars := n.not_mem_chars (by decide) (by decide)

/-- Both readers agree on a numeral. -/
theorem double?_chars : double? n.chars = some n.decimal.toDouble := by
  rw [double?_eq n.not_mem_underscore n.not_padded n.not_spellsWord, n.reads]
  rfl

end Numeral

end Characters

/-- What the reader of settings takes besides the numerals. -/
theorem ofChars?_eq_none_iff {cs : List Char} (h : (double? cs).isSome = true) :
    Decimal.ofChars? cs = none ↔ '_' ∈ cs ∨ IsPadded cs ∨ SpellsWord cs := by
  constructor
  · intro hnone
    by_contra hplain
    obtain ⟨hjoined, hplain⟩ := not_or.mp hplain
    obtain ⟨hpadded, hword⟩ := not_or.mp hplain
    rw [double?_eq hjoined hpadded hword, hnone] at h
    cases h
  · intro hother
    by_contra hsome
    obtain ⟨n, rfl⟩ := (isSome_ofChars?_iff cs).mp (Option.isSome_iff_ne_none.mpr hsome)
    exact hother.elim n.not_mem_underscore fun h => h.elim n.not_padded n.not_spellsWord

end Agreement

end Number

namespace Nc
open Number

theorem upper_of_isUpper {letter : Char} (h : letter.isUpper = true) :
    upper [letter] = [letter] := by
  have hascii : letter.toNat < 0x80 := by
    simp only [Char.isUpper, decide_eq_true_eq] at h
    have hle : letter.toNat ≤ 90 := UInt32.le_iff_toNat_le.mp h.2
    omega
  exact forall_ascii (P := fun c => c.isUpper = true → upper [c] = [c]) (by decide) hascii h

/-- The number of a letter is what stands behind it in the first word of the letter. -/
theorem number?_of_wordOf? (line : Int) {words : List String} {letter : Char} {cs : List Char}
    (hletter : letter.isUpper = true)
    (hword : wordOf? words letter = some (String.ofList (letter :: cs))) :
    number? line words (letterName letter) =
      match Decimal.ofChars? cs with
      | some d => .ok (some d)
      | none => .error ⟨line, letterName letter, String.ofList (letter :: cs)⟩ := by
  have hkey : upper (letterName letter).toList = [letter] := by
    rw [letterName, String.toList_ofList, upper_of_isUpper hletter]
  have hfirst : firstWord? [letter] words = some (String.ofList (letter :: cs), cs) := by
    have hfind := firstWord?_letter letter words
    change _ = (wordOf? words letter).map _ at hfind
    rw [hfind, hword, Option.map_some, String.toList_ofList]
    rfl
  unfold number?
  simp only [hkey, hfirst]
  rfl

/-- The first word of a letter has a number if and only if a numeral stands behind the letter. Both
readers take the numeral for the same double, which is nearest to what it denotes, and the one of
settings takes nothing else without an underscore, white space at an end or a word for a value. -/
theorem number?_grammar (line : Int) {words : List String} {letter : Char} {cs : List Char}
    (hletter : letter.isUpper = true)
    (hword : wordOf? words letter = some (String.ofList (letter :: cs))) :
    let read := number? line words (letterName letter)
    let fault : MalformedWord := ⟨line, letterName letter, String.ofList (letter :: cs)⟩
    ((∃ n : Numeral, n.chars = cs) ↔ ∃ d, read = .ok (some d)) ∧
    ((¬ ∃ n : Numeral, n.chars = cs) ↔ read = .error fault) ∧
    (∀ d, read = .ok (some d) → double? cs = some d.toDouble ∧
      ∀ n : Numeral, n.chars = cs → IsNearest n.negative n.magnitude d.toDouble) ∧
    ((double? cs).isSome = true →
      (read = .error fault ↔ '_' ∈ cs ∨ IsPadded cs ∨ SpellsWord cs)) := by
  intro read fault
  have hread : read = match Decimal.ofChars? cs with
      | some d => .ok (some d)
      | none => .error fault := number?_of_wordOf? line hletter hword
  have hok (d : Decimal) : read = .ok (some d) ↔ Decimal.ofChars? cs = some d := by
    rw [hread]
    cases Decimal.ofChars? cs <;> simp
  have herror : read = .error fault ↔ Decimal.ofChars? cs = none := by
    rw [hread]
    cases Decimal.ofChars? cs <;> simp
  refine ⟨?_, ?_, ?_, fun h => herror.trans (ofChars?_eq_none_iff h)⟩
  · rw [← isSome_ofChars?_iff, Option.isSome_iff_exists]
    exact exists_congr fun d => (hok d).symm
  · rw [← isSome_ofChars?_iff, herror, Bool.not_eq_true, Option.isSome_eq_false_iff,
      Option.isNone_iff_eq_none]
  · intro d hd
    have hdecimal (n : Numeral) (hn : n.chars = cs) : n.decimal = d := by
      have hreads := n.reads
      rw [hn, (hok d).mp hd] at hreads
      exact (Option.some.inj hreads).symm
    obtain ⟨n, hn⟩ := exists_numeral ((hok d).mp hd)
    refine ⟨?_, fun m hm => ?_⟩
    · rw [← hdecimal n hn, ← hn]
      exact n.double?_chars
    · have hden : 0 < m.decimal.magnitude.den := Ratio.den_scale_pos (by decide) _ Nat.one_pos
      rw [← hdecimal m hm, Decimal.toDouble_eq, ← m.value_decimal]
      exact isNearest_ofRatio m.negative hden

/-- Minus one and a quarter, in digits of two scripts. -/
def mixedNumeral : Numeral where
  sign := ['-']
  whole := ['١', '2']
  fraction := some ['5']
  exponent := some ⟨'E', ['-'], ['1'], .inr rfl, by decide, by simp; decide, by decide⟩
  isSign := by decide
  isWhole := by simp; decide
  isFraction := by simp; decide
  nonempty := .inl (by decide)

/-- A numeral with digits of two scripts, and a text that the reader of settings alone takes. -/
theorem number?_grammar_at_words :
    let words := ["G01", "X-١2.5E-1", "X7", "Y1_0"]
    let x := "-١2.5E-1".toList
    let y := "1_0".toList
    let d : Decimal := ⟨true, 125, -2⟩
    wordOf? words 'X' = some (String.ofList ('X' :: x)) ∧ mixedNumeral.chars = x ∧
      number? 4 words (letterName 'X') = .ok (some d) ∧ double? x = some d.toDouble ∧
      IsNearest true (5 / 4) d.toDouble ∧
      wordOf? words 'Y' = some (String.ofList ('Y' :: y)) ∧ (double? y).isSome = true ∧
      number? 4 words (letterName 'Y') = .error ⟨4, letterName 'Y', "Y1_0"⟩ := by
  intro words x y d
  have hx : wordOf? words 'X' = some (String.ofList ('X' :: x)) := by decide +kernel
  have hy : wordOf? words 'Y' = some (String.ofList ('Y' :: y)) := by decide +kernel
  have hread : number? 4 words (letterName 'X') = .ok (some d) := by decide +kernel
  have hvalue : mixedNumeral.magnitude = 5 / 4 := by
    have hwhole : positional mixedNumeral.whole = 12 := by decide +kernel
    have hfraction : mixedNumeral.fraction = some ['5'] := rfl
    have hdigits : positional ['5'] = 5 := by decide +kernel
    have hexponent : mixedNumeral.exponent.elim 0 Exponent.value = -1 := by decide +kernel
    rw [Numeral.magnitude, hwhole, hfraction, hexponent, Option.getD_some, hdigits]
    norm_num
  obtain ⟨-, -, hok, -⟩ := number?_grammar 4 (by decide) hx
  obtain ⟨-, -, -, hother⟩ := number?_grammar 4 (by decide) hy
  obtain ⟨hdouble, hnearest⟩ := hok d hread
  have hsome : (double? y).isSome = true := by decide +kernel
  refine ⟨hx, rfl, hread, hdouble, ?_, hy, hsome, (hother hsome).mpr (.inl (by decide))⟩
  exact hvalue ▸ hnearest mixedNumeral rfl

end Nc

end Waterjet
