import Waterjet.Proofs.Numerals

/-! Objects written line by line. A value is spelled so that the reader takes it for the same value,
whatever stands behind it, and an object with a member to a line is read member by member. -/
namespace Waterjet
open Number

namespace Json

section Atoms

theorem readKeyword?_eq_none {c : Char} (hc : c.isDigit = true) (negative : Bool) (cs : List Char) :
    readKeyword? (if negative then '-' :: c :: cs else c :: cs) = none := by
  have hne (d : Char) (hd : d.isDigit = false) : d ≠ c := (ne_of_isDigit hc hd).symm
  cases negative with
  | true => simp [readKeyword?, keywords, hne 'I' rfl]
  | false =>
    simp [readKeyword?, keywords, hne 'n' rfl, hne 't' rfl, hne 'f' rfl, hne 'N' rfl, hne 'I' rfl,
      hne '-' rfl]

theorem readNumeral?_signed {c : Char} (hc : c.isDigit = true) (negative : Bool) (cs : List Char) :
    readNumeral? (if negative then '-' :: c :: cs else c :: cs) =
      readUnsigned? negative (c :: cs) := by
  cases negative with
  | true => rfl
  | false =>
    rw [if_neg (by decide), readNumeral?]
    simp [ne_of_isDigit hc (d := '-') rfl]

theorem readValue_eq_readAtom {c : Char} (hquote : c ≠ '\x22') (hbracket : c ≠ '[')
    (hbrace : c ≠ '\x7b') (fuel depth : Nat) (cs : List Char) :
    readValue (fuel + 1) depth (c :: cs) = readAtom (c :: cs) := by
  rw [readValue] <;> simp [hquote, hbracket, hbrace]

/-- A text on one line that the reader takes for the value, as far as no numeral goes on behind
it. -/
structure Spells (text : List Char) (value : Json) : Prop where
  start : ∃ c cs, text = c :: cs ∧ isSpace c = false
  oneLine : '\r' ∉ text
  read : ∀ (fuel depth : Nat) (rest : List Char), EndsNumeral rest →
    readValue (fuel + 1) depth (text ++ rest) = .ok (value, rest)

/-- A numeral with a sign in front is a value of its own. -/
theorem spells_signed {c : Char} {cs : List Char} {value : Json} (hc : c.isDigit = true)
    (hreturn : '\r' ∉ c :: cs) (negative : Bool)
    (h : ∀ rest, EndsNumeral rest →
      readUnsigned? negative (c :: cs ++ rest) = some (.ok (value, rest))) :
    Spells (signed negative (c :: cs)).toList value := by
  have hne (d : Char) (hd : d.isDigit = false) : c ≠ d := ne_of_isDigit hc hd
  have htext : (signed negative (c :: cs)).toList = if negative then '-' :: c :: cs else c :: cs :=
    String.toList_ofList
  rw [htext]
  refine ⟨?_, ?_, ?_⟩
  · cases negative with
    | true => exact ⟨'-', c :: cs, rfl, rfl⟩
    | false =>
      refine ⟨c, cs, rfl, ?_⟩
      simp [isSpace, hne ' ' rfl, hne '\t' rfl, hne '\n' rfl, hne '\r' rfl]
  · cases negative with
    | true => simpa using hreturn
    | false => exact hreturn
  · intro fuel depth rest hrest
    have hatom : readValue (fuel + 1) depth
        ((if negative then '-' :: c :: cs else c :: cs) ++ rest) =
          readAtom (if negative then '-' :: c :: (cs ++ rest) else c :: (cs ++ rest)) := by
      cases negative with
      | true => exact readValue_eq_readAtom (by decide) (by decide) (by decide) fuel depth _
      | false => exact readValue_eq_readAtom (hne _ rfl) (hne _ rfl) (hne _ rfl) fuel depth _
    have hread := h rest hrest
    rw [List.cons_append] at hread
    rw [hatom, readAtom, readKeyword?_eq_none hc, readNumeral?_signed hc, hread]

theorem not_mem_return_of_isDigit {cs : List Char} (h : ∀ c ∈ cs, c.isDigit = true) :
    '\r' ∉ cs := by
  intro hmem
  cases h _ hmem

theorem not_mem_return_chars {s : Spelling} (h : s.Valid) : '\r' ∉ s.chars := by
  have hwhole := not_mem_return_of_isDigit h.whole.digit
  have hfraction := not_mem_return_of_isDigit h.fraction
  have hmark : '\r' ∉ s.exponent.elim [] exponentMark := by
    cases s.exponent with
    | none => nofun
    | some e =>
      have hpadded := not_mem_return_of_isDigit fun c => @isDigit_padded 2 e.natAbs c
      simp only [Option.elim, exponentMark]
      split <;> simpa using hpadded
  unfold Spelling.chars
  simp only [List.mem_append, not_or]
  refine ⟨hwhole, ?_, hmark⟩
  split
  · nofun
  · simpa using hfraction

theorem spells_spelling {s : Spelling} (h : s.Valid) (negative : Bool) :
    Spells (signed negative s.chars).toList (.double (s.decimal negative).toDouble) := by
  have hreturn := not_mem_return_chars h
  have hread := fun rest => @readUnsigned?_chars s h negative rest
  obtain ⟨c, tail, hwhole, hc⟩ := h.whole.exists_cons
  obtain ⟨cs, hcs⟩ : ∃ cs, s.chars = c :: cs := ⟨_, by rw [Spelling.chars, hwhole]; rfl⟩
  rw [hcs] at hreturn hread ⊢
  exact spells_signed hc hreturn negative hread

theorem spells_written {n : Int} (h : (decimalDigits n.natAbs).length ≤ maxDigits) :
    Spells (written n).toList (.integer n) := by
  have hwhole := isWhole_decimalDigits n.natAbs
  have hreturn := not_mem_return_of_isDigit hwhole.digit
  have hread := fun rest => @readUnsigned?_whole _ hwhole h (decide (n < 0)) rest
  have hvalue : (if decide (n < 0) = true then -(digitsValue (decimalDigits n.natAbs) : Int)
      else digitsValue (decimalDigits n.natAbs)) = n := by
    rw [digitsValue_decimalDigits]
    simp only [decide_eq_true_eq]
    split <;> omega
  rw [hvalue] at hread
  obtain ⟨c, cs, hcs, hc⟩ := hwhole.exists_cons
  unfold written
  rw [hcs] at hreturn hread ⊢
  exact spells_signed hc hreturn _ hread

/-- A keyword that is none of those before it stands for its value. -/
theorem spells_keyword {word : List Char} {value : Json}
    (hfound : ∀ rest, readKeyword? (word ++ rest) = some (value, rest))
    (hstart : ∃ c cs, word = c :: cs ∧ isSpace c = false ∧ c ≠ '\x22' ∧ c ≠ '[' ∧ c ≠ '\x7b')
    (hreturn : '\r' ∉ word) : Spells word value := by
  obtain ⟨c, cs, rfl, hspace, hquote, hbracket, hbrace⟩ := hstart
  refine ⟨⟨c, cs, rfl, hspace⟩, hreturn, ?_⟩
  intro fuel depth rest _
  have hread := hfound rest
  rw [List.cons_append] at hread ⊢
  rw [readValue_eq_readAtom hquote hbracket hbrace, readAtom, hread]

theorem spells_null : Spells "null".toList .null :=
  spells_keyword (fun _ => rfl) ⟨'n', "ull".toList, rfl, by decide⟩ (by decide)

theorem spells_infinity : Spells "Infinity".toList (.double (infinity false)) :=
  spells_keyword (fun _ => rfl) ⟨'I', "nfinity".toList, rfl, by decide⟩ (by decide)

theorem spells_negative_infinity : Spells "-Infinity".toList (.double (infinity true)) :=
  spells_keyword (fun _ => rfl) ⟨'-', "Infinity".toList, rfl, by decide⟩ (by decide)

/-- A double that is a number is spelled so that it is read back. -/
theorem spells_fileDouble {x : Float} (hx : x.isNaN = false) :
    Spells (fileDouble x).toList (.double x) := by
  cases hdecode : decode x with
  | nan =>
    rw [(isNaN_iff x).mpr hdecode] at hx
    cases hx
  | infinite negative =>
    have htext : fileDouble x = if negative then "-Infinity" else "Infinity" := by
      rw [fileDouble, hdecode]
    rw [htext, eq_infinity_of_decode hdecode]
    cases negative with
    | true => exact spells_negative_infinity
    | false => exact spells_infinity
  | finite d =>
    obtain ⟨s, htext, hvalid, hvalue⟩ := exists_spelling hdecode
    rw [htext, ← hvalue]
    exact spells_spelling hvalid d.negative

end Atoms

section Texts

/-- What stands for itself in a text. -/
def IsPlain (c : Char) : Prop := c ≠ '\x22' ∧ c ≠ '\\' ∧ 0x20 ≤ c.toNat

theorem readUnits_plain {cs : List Char} (h : ∀ c ∈ cs, IsPlain c) (opening : Nat)
    (rest : List Char) :
    readUnits opening (cs ++ '\x22' :: rest) = .ok (cs.map Char.toNat, rest) := by
  induction cs with
  | nil => rfl
  | cons c cs ih =>
    obtain ⟨hquote, hescape, hcontrol⟩ := h c List.mem_cons_self
    have hrest := ih fun d hd => h d (List.mem_cons_of_mem _ hd)
    rw [List.cons_append, readUnits] <;>
      simp [hquote, hescape, hcontrol, hrest, consUnit, Except.map]

/-- No character is a surrogate, so none is joined with another. -/
theorem joinUnits_map_toNat (cs : List Char) : joinUnits (cs.map Char.toNat) = cs := by
  have hcharacter (c : Char) :
      isHighSurrogate c.toNat = false ∧ isLowSurrogate c.toNat = false := by
    have hvalid : c.toNat < 0xD800 ∨ 0xDFFF < c.toNat ∧ c.toNat < 0x110000 := c.valid
    unfold isHighSurrogate isLowSurrogate
    simp
    omega
  induction cs with
  | nil => rfl
  | cons c cs ih =>
    have hc : joinUnits.character c.toNat = c := by
      rw [joinUnits.character, (hcharacter c).1, (hcharacter c).2]
      exact Char.ofNat_toNat c
    cases cs with
    | nil => exact congrArg ([·]) hc
    | cons d cs =>
      rw [List.map_cons] at ih
      rw [List.map_cons, List.map_cons, joinUnits, (hcharacter c).1, Bool.false_and,
        if_neg (by decide), hc, ih]

theorem readText_plain {cs : List Char} (h : ∀ c ∈ cs, IsPlain c) (rest : List Char) :
    readText (cs ++ '\x22' :: rest) = .ok (String.ofList cs, rest) := by
  rw [readText, readUnits_plain h]
  exact congrArg (fun ds => Except.ok (String.ofList ds, rest)) (joinUnits_map_toNat cs)

end Texts

/-- A member of an object as it stands on a line of its own. -/
structure Member where
  name : String
  text : String
  value : Json

namespace Member

def line (m : Member) : String := "  \x22" ++ m.name ++ "\x22: " ++ m.text

/-- The line says what the member is. -/
structure Reads (m : Member) : Prop where
  name : ∀ c ∈ m.name.toList, IsPlain c
  value : Spells m.text.toList m.value

theorem toList_line (m : Member) : m.line.toList =
    ' ' :: ' ' :: '\x22' :: (m.name.toList ++ '\x22' :: ':' :: ' ' :: m.text.toList) := by
  simp [line, String.toList_append]

end Member

/-- An object with a member to a line. -/
def objectText (members : List Member) : String :=
  "\x7b\n" ++ ",\n".intercalate (members.map Member.line) ++ "\n\x7d"

section Objects

theorem skipSpace_cons_of_not_space {c : Char} (h : isSpace c = false) (cs : List Char) :
    skipSpace (c :: cs) = c :: cs := List.dropWhile_cons_of_neg (Bool.eq_false_iff.mp h)

/-- A member is read up to what stands behind its value: the end of the object, or a comma and
further members. -/
theorem readMembers_line {m : Member} (h : m.Reads) (fuel depth : Nat) {behind : List Char}
    (hbehind : EndsNumeral behind) :
    (∀ rest, skipSpace behind = '\x7d' :: rest →
      readMembers (fuel + 2) depth (skipSpace (m.line.toList ++ behind)) =
        .ok ([(m.name, m.value)], rest)) ∧
    ∀ rest, skipSpace behind = ',' :: rest → ∀ others,
      readMembers (fuel + 1) depth (skipSpace rest) = .ok others →
        readMembers (fuel + 2) depth (skipSpace (m.line.toList ++ behind)) =
          .ok ((m.name, m.value) :: others.1, others.2) := by
  have hskip : skipSpace (m.line.toList ++ behind) =
      '\x22' :: (m.name.toList ++ '\x22' :: ':' :: ' ' :: (m.text.toList ++ behind)) := by
    rw [m.toList_line]
    simp [skipSpace, isSpace]
  have hname := readText_plain h.name (':' :: ' ' :: (m.text.toList ++ behind))
  rw [String.ofList_toList] at hname
  have hcolon := skipSpace_cons_of_not_space (c := ':') rfl (' ' :: (m.text.toList ++ behind))
  obtain ⟨c, cs, htext, hspace⟩ := h.value.start
  have hfront : skipSpace (' ' :: (m.text.toList ++ behind)) = m.text.toList ++ behind := by
    rw [htext]
    exact skipSpace_cons_of_not_space hspace _
  have hvalue := h.value.read fuel depth behind hbehind
  constructor
  · intro rest hrest
    rw [hskip, readMembers, hname]
    simp [bind, Except.bind, hcolon, hfront, hvalue, hrest, pure, Except.pure]
  · intro rest hrest others hothers
    rw [hskip, readMembers, hname]
    simp [bind, Except.bind, hcolon, hfront, hvalue, hrest, hothers, pure, Except.pure]

theorem endsNumeral_comma (rest : List Char) : EndsNumeral (',' :: rest) := by
  rintro c ⟨⟩
  decide

theorem endsNumeral_lineFeed (rest : List Char) : EndsNumeral ('\n' :: rest) := by
  rintro c ⟨⟩
  decide

/-- The members of an object are read line by line. -/
theorem readMembers_lines {members : List Member} (h : ∀ m ∈ members, m.Reads)
    (hne : members ≠ []) {fuel : Nat} (hfuel : members.length < fuel) (depth : Nat) :
    readMembers fuel depth
        (skipSpace ((",\n".intercalate (members.map Member.line)).toList ++ ['\n', '\x7d'])) =
      .ok (members.map fun m => (m.name, m.value), []) := by
  induction members generalizing fuel with
  | nil => exact absurd rfl hne
  | cons m ms ih =>
    obtain ⟨fuel, rfl⟩ : ∃ k, fuel = k + 2 := ⟨fuel - 2, by rw [List.length_cons] at hfuel; omega⟩
    have hm := h m List.mem_cons_self
    cases ms with
    | nil => exact (readMembers_line hm fuel depth (endsNumeral_lineFeed ['\x7d'])).1 [] rfl
    | cons n ms =>
      have hless : (n :: ms).length < fuel + 1 := by simpa using hfuel
      have hrest := ih (fun k hk => h k (List.mem_cons_of_mem _ hk)) (List.cons_ne_nil n ms) hless
      generalize hlines : (",\n".intercalate ((n :: ms).map Member.line)).toList ++ ['\n', '\x7d'] =
        lines at hrest
      have htext : (",\n".intercalate ((m :: n :: ms).map Member.line)).toList ++ ['\n', '\x7d'] =
          m.line.toList ++ ',' :: '\n' :: lines := by
        rw [← hlines]
        simp [String.toList_intercalate, List.intercalate]
      rw [htext]
      have hbehind := endsNumeral_comma ('\n' :: lines)
      exact (readMembers_line hm fuel depth hbehind).2 ('\n' :: lines) rfl _ hrest

theorem toList_objectText (members : List Member) : (objectText members).toList =
    '\x7b' :: '\n' ::
      ((",\n".intercalate (members.map Member.line)).toList ++ ['\n', '\x7d']) := by
  simp [objectText, String.toList_append]

/-- There is at least one character for each line. -/
theorem length_le_length_lines (members : List Member) :
    members.length ≤ (",\n".intercalate (members.map Member.line)).toList.length := by
  rw [String.toList_intercalate]
  induction members with
  | nil => exact Nat.zero_le _
  | cons m ms ih =>
    have hline : 1 ≤ m.line.toList.length := by
      rw [m.toList_line]
      exact Nat.le_add_left ..
    cases ms with
    | nil => simpa [List.intercalate] using hline
    | cons n ms =>
      simp [List.intercalate] at ih ⊢
      omega

/-- Where members can be read, the first begins with its name. -/
theorem exists_cons_of_readMembers {fuel depth : Nat} {cs : List Char}
    {result : List (String × Json) × List Char} (h : readMembers fuel depth cs = .ok result) :
    ∃ tail, cs = '\x22' :: tail := by
  cases fuel with
  | zero => cases h
  | succ fuel =>
    unfold readMembers at h
    split at h
    · exact ⟨_, rfl⟩
    · cases h

theorem readValue_object {fuel depth : Nat} {cs rest : List Char} {members : List (String × Json)}
    (h : readMembers fuel depth (skipSpace cs) = .ok (members, rest)) :
    readValue (fuel + 1) (depth + 1) ('\x7b' :: cs) = .ok (.object members, rest) := by
  obtain ⟨tail, htail⟩ := exists_cons_of_readMembers h
  rw [readValue]
  rw [htail] at h ⊢
  simp [h, Except.map]

/-- An object that is written with its members is read with the same members. -/
theorem read?_objectText (nesting : Nat) {members : List Member} (h : ∀ m ∈ members, m.Reads)
    (hne : members ≠ []) :
    read? nesting (objectText members).toList =
      .ok (.object (members.map fun m => (m.name, m.value))) := by
  have hlength := length_le_length_lines members
  have hmembers {fuel : Nat} (hfuel : members.length < fuel) :=
    readMembers_lines h hne hfuel nesting
  rw [toList_objectText]
  generalize (",\n".intercalate (members.map Member.line)).toList = lines at *
  have hmark : ¬ ('\x7b' :: '\n' :: (lines ++ ['\n', '\x7d'])).head? = some (Char.ofNat 0xFEFF) :=
    fun heq => absurd (Option.some.inj heq) (by decide)
  have hless : members.length < 2 * (lines.length + 4) + 1 := by omega
  have hvalue : readValue (2 * (lines.length + 4) + 1 + 1) (nesting + 1)
      ('\x7b' :: '\n' :: (lines ++ ['\n', '\x7d'])) =
        .ok (.object (members.map fun m => (m.name, m.value)), []) :=
    readValue_object (hmembers hless)
  have hfuel : 2 * ('\x7b' :: '\n' :: (lines ++ ['\n', '\x7d'])).length + 2 =
      2 * (lines.length + 4) + 1 + 1 := by
    simp
  unfold read?
  rw [if_neg hmark, hfuel]
  change (readValue (2 * (lines.length + 4) + 1 + 1) (nesting + 1)
    ('\x7b' :: '\n' :: (lines ++ ['\n', '\x7d'])) >>= _) = _
  rw [hvalue]
  rfl

theorem not_mem_return_objectText {members : List Member} (h : ∀ m ∈ members, m.Reads) :
    '\r' ∉ (objectText members).toList := by
  have hline (m : Member) (hm : m ∈ members) : '\r' ∉ m.line.toList := by
    have hname : '\r' ∉ m.name.toList := fun hmem => absurd ((h m hm).name _ hmem).2.2 (by decide)
    rw [m.toList_line]
    simpa [hname] using (h m hm).value.oneLine
  have hlines : '\r' ∉ (",\n".intercalate (members.map Member.line)).toList := by
    rw [String.toList_intercalate]
    clear h
    induction members with
    | nil => nofun
    | cons m ms ih =>
      have hrest := ih fun n hn => hline n (List.mem_cons_of_mem m hn)
      have hm := hline m List.mem_cons_self
      cases ms with
      | nil => simpa [List.intercalate] using hm
      | cons n ms =>
        simp [List.intercalate] at hrest ⊢
        exact ⟨hm, hrest⟩
  rw [toList_objectText]
  simpa using hlines

end Objects

end Json

end Waterjet
