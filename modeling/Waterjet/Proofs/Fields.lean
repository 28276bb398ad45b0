import Waterjet.Path.Modal

/-! The fields of a command line as a table from letters to numbers. A letter takes the first word
that begins with it, and the line is at fault at the first letter, in the order in which letters
are tried, whose word holds no number. Both readers of fields amount to this table. -/
namespace Waterjet
open Scalar Text Number

namespace Nc

/-- The letters of the interpreter in the order in which they are tried. -/
def fieldLetters : List Char := ['G', 'X', 'Y', 'Z', 'F', 'I', 'J']

def letterName (letter : Char) : String := String.ofList [letter]

/-- The number that follows the letter of a word. -/
def wordNumber? (word : String) : Option Decimal := Decimal.ofChars? (word.toList.drop 1)

namespace Line

/-- The first word that begins with a letter. -/
def word? (line : Line) (letter : Char) : Option String :=
  line.words.find? fun word => word.toList.head? == some letter

def number? (line : Line) (letter : Char) : Option Decimal :=
  (line.word? letter).bind wordNumber?

/-- Later words of the letter need not be readable, and a letter may be absent. -/
def reads (line : Line) (letter : Char) : Bool :=
  (line.word? letter).all fun word => (wordNumber? word).isSome

def malformed (line : Line) (letter : Char) : MalformedWord :=
  ⟨line.number, letterName letter, (line.word? letter).getD ""⟩

/-- What a line is blamed for: the order of the letters decides, not that of the words. -/
def fault? (line : Line) : Option MalformedWord :=
  (fieldLetters.find? fun letter => !line.reads letter).map line.malformed

theorem fault?_eq_none_iff (line : Line) :
    line.fault? = none ↔ fieldLetters.all line.reads = true := by
  unfold fault?
  rw [Option.map_eq_none_iff, List.find?_eq_none, List.all_eq_true]
  constructor
  · intro h letter hletter
    simpa using h letter hletter
  · intro h letter hletter
    simpa using h letter hletter

end Line

private theorem isPrefixOf_letter (letter : Char) (cs : List Char) :
    [letter].isPrefixOf cs = (cs.head? == some letter) := by
  cases cs with
  | nil => rfl
  | cons c rest => simp [List.isPrefixOf, Bool.beq_comm]

theorem firstWord?_letter (letter : Char) (words : List String) :
    firstWord? [letter] words =
      (words.find? fun word => word.toList.head? == some letter).map fun word =>
        (word, word.toList.drop 1) := by
  induction words with
  | nil => rfl
  | cons word rest ih =>
    rw [firstWord?, isPrefixOf_letter, List.find?_cons]
    cases h : (word.toList.head? == some letter) with
    | true => rfl
    | false => simpa using ih

theorem upper_letter {letter : Char} (h : letter ∈ fieldLetters) : upper [letter] = [letter] := by
  have hall : fieldLetters.all (fun letter => upper [letter] == [letter]) = true := by decide
  exact beq_iff_eq.mp (List.all_eq_true.mp hall letter h)

theorem number?_letter (line : Line) {letter : Char} (h : letter ∈ fieldLetters) :
    number? line.number line.words (letterName letter) =
      if line.reads letter then .ok (line.number? letter)
      else .error (line.malformed letter) := by
  have hkey : upper (letterName letter).toList = [letter] := by
    rw [letterName, String.toList_ofList, upper_letter h]
  have hfirst : firstWord? [letter] line.words =
      (line.word? letter).map fun word => (word, word.toList.drop 1) :=
    firstWord?_letter letter line.words
  unfold number? Line.reads Line.number? Line.malformed
  simp only [hkey, hfirst]
  cases line.word? letter with
  | none => rfl
  | some word =>
    have hword : Decimal.ofChars? (word.toList.drop 1) = wordNumber? word := rfl
    simp only [Option.map_some, hword, Option.all_some, Option.bind_some, Option.getD_some]
    cases wordNumber? word <;> rfl

/-- The reader of several letters stops at the first of them that is malformed. -/
private theorem mapM_number? (line : Line) (letters : List Char)
    (h : ∀ letter ∈ letters, letter ∈ fieldLetters) :
    ((letters.map letterName).mapM fun letter => do
        let value ← number? line.number line.words letter
        pure (letter, value) : Except MalformedWord _) =
      match letters.find? fun letter => !line.reads letter with
      | some letter => .error (line.malformed letter)
      | none => .ok (letters.map fun letter => (letterName letter, line.number? letter)) := by
  induction letters with
  | nil => rfl
  | cons letter rest ih =>
    have hrest := ih fun l hl => h l (List.mem_cons_of_mem _ hl)
    rw [List.map_cons, List.mapM_cons, hrest, number?_letter line (h letter List.mem_cons_self),
      List.find?_cons]
    cases line.reads letter with
    | false => rfl
    | true =>
      change _ = match rest.find? fun letter => !line.reads letter with | some _ => _ | none => _
      cases rest.find? fun letter => !line.reads letter <;> rfl

theorem numbers?_eq (line : Line) :
    numbers? line.number line.words (fieldLetters.map letterName) =
      match line.fault? with
      | some m => .error m
      | none => .ok (fieldLetters.map fun letter => (letterName letter, line.number? letter)) := by
  have hdistinct : (fieldLetters.map letterName).eraseDups = fieldLetters.map letterName := by
    decide
  unfold numbers? Line.fault?
  rw [hdistinct, mapM_number? line fieldLetters fun _ h => h]
  cases fieldLetters.find? fun letter => !line.reads letter <;> rfl

end Nc

open Nc
variable {α : Type} [Scalar α]

def Nc.Line.value? (line : Line) (letter : Char) : Option α := (line.number? letter).map ofDecimal

/-- The values of all letters, whether or not the line is at fault. -/
def Nc.Line.fields (line : Line) : Fields α where
  g := line.value? 'G'
  x := line.value? 'X'
  y := line.value? 'Y'
  z := line.value? 'Z'
  f := line.value? 'F'
  i := line.value? 'I'
  j := line.value? 'J'

/-- The table of a line, letter by letter, gives its fields. -/
theorem Nc.Line.fields_eq {line : Line} {g x y z f i j : Option Decimal}
    (h : fieldLetters.map line.number? = [g, x, y, z, f, i, j]) :
    (line.fields : Fields α) =
      ⟨g.map ofDecimal, x.map ofDecimal, y.map ofDecimal, z.map ofDecimal, f.map ofDecimal,
        i.map ofDecimal, j.map ofDecimal⟩ := by
  simp only [fieldLetters, List.map_cons, List.map_nil, List.cons.injEq, and_true] at h
  obtain ⟨hg, hx, hy, hz, hf, hi, hj⟩ := h
  unfold fields value?
  rw [hg, hx, hy, hz, hf, hi, hj]

theorem Nc.Line.fields_congr {a b : Line} (h : a.words = b.words) :
    (a.fields : Fields α) = b.fields := by
  unfold fields value? number? word?
  rw [h]

theorem Fields.read?_eq (line : Line) :
    (Fields.read? line : Except MalformedWord (Fields α)) =
      match line.fault? with
      | some m => .error m
      | none => .ok line.fields := by
  have hnumber (letter : Char) (h : letter ∈ fieldLetters) := number?_letter line h
  have hg : number? line.number line.words "G" = _ := hnumber 'G' (by decide)
  have hx : number? line.number line.words "X" = _ := hnumber 'X' (by decide)
  have hy : number? line.number line.words "Y" = _ := hnumber 'Y' (by decide)
  have hz : number? line.number line.words "Z" = _ := hnumber 'Z' (by decide)
  have hf : number? line.number line.words "F" = _ := hnumber 'F' (by decide)
  have hi : number? line.number line.words "I" = _ := hnumber 'I' (by decide)
  have hj : number? line.number line.words "J" = _ := hnumber 'J' (by decide)
  unfold Fields.read? Line.fault? fieldLetters
  simp only [hg, hx, hy, hz, hf, hi, hj, List.find?_cons]
  -- A letter that fails ends the reading, so only the good case of each goes on.
  cases line.reads 'G' <;> try rfl
  cases line.reads 'X' <;> try rfl
  cases line.reads 'Y' <;> try rfl
  cases line.reads 'Z' <;> try rfl
  cases line.reads 'F' <;> try rfl
  cases line.reads 'I' <;> try rfl
  cases line.reads 'J' <;> rfl

end Waterjet
