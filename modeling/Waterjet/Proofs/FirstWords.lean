import Mathlib.Data.List.Find
import Mathlib.Logic.Relation
import Waterjet.Host.Standard
import Waterjet.Proofs.Verdict

/-! What settles the meaning of a line. For each letter of a field only the first word counts, so
the words of a line can be put in another order as long as those of one letter stay in theirs, words
of other letters can come and go, and so can further words of a letter that has one already. Nothing
that the interpreter does with the line changes, and a line that is at fault stays at fault for the
same word. -/
namespace Waterjet
open Scalar Nc

namespace Nc

def begins (letter : Char) (word : String) : Bool := word.toList.head? == some letter

/-- The word belongs to a field, whether or not it can be read. -/
def isField (word : String) : Bool := fieldLetters.any fun letter => begins letter word

/-- For each letter of a field the same first word, or none on either side. -/
def SameFirstWords (a b : List String) : Prop :=
  ∀ letter ∈ fieldLetters, wordOf? a letter = wordOf? b letter

instance (a b : List String) : Decidable (SameFirstWords a b) :=
  List.decidableBAll (fun letter => wordOf? a letter = wordOf? b letter) fieldLetters

/-- One edit of the words of a line. -/
inductive Edit : List String → List String → Prop
  /-- The words in another order, those with the same first character in their own. -/
  | reorder {a b : List String} (words : a.Perm b)
      (order : ∀ letter, a.filter (begins letter) = b.filter (begins letter)) : Edit a b
  /-- Words of no field put in or taken out anywhere. -/
  | other {a b : List String} (fields : a.filter isField = b.filter isField) : Edit a b
  /-- Behind the first word of a letter, further words of that letter put in, taken out or
  replaced. -/
  | further {letter : Char} {word : String} (front : List String) {a b : List String}
      (first : begins letter word = true)
      (rest : (a.filter fun w => !begins letter w) = b.filter fun w => !begins letter w) :
      Edit (front ++ word :: a) (front ++ word :: b)

/-- The first word of a letter is found again among any words that keep all of the letter. -/
theorem wordOf?_filter {p : String → Bool} {letter : Char}
    (h : ∀ word, begins letter word = true → p word = true) (words : List String) :
    wordOf? (words.filter p) letter = wordOf? words letter := by
  unfold wordOf?
  rw [List.find?_filter]
  apply List.find?_congr
  intro word _
  change decide (p word = true ∧ begins letter word = true) = begins letter word
  cases hword : begins letter word with
  | false => simp
  | true => simp [h word hword]

theorem wordOf?_append (a b : List String) (letter : Char) :
    wordOf? (a ++ b) letter = (wordOf? a letter).or (wordOf? b letter) := List.find?_append

theorem wordOf?_cons_of_begins {letter : Char} {word : String} (h : begins letter word = true)
    (words : List String) : wordOf? (word :: words) letter = some word :=
  List.find?_cons_of_pos h

theorem wordOf?_cons_of_not_begins {letter : Char} {word : String}
    (h : ¬ begins letter word = true) (words : List String) :
    wordOf? (word :: words) letter = wordOf? words letter :=
  List.find?_cons_of_neg h

theorem Edit.sameFirstWords {a b : List String} (h : Edit a b) : SameFirstWords a b := by
  intro letter hletter
  cases h with
  | reorder _ order =>
    rw [← wordOf?_filter (fun _ h => h) a, order letter, wordOf?_filter (fun _ h => h) b]
  | other fields =>
    have hfield (word : String) (h : begins letter word = true) : isField word = true :=
      List.any_eq_true.mpr ⟨letter, hletter, h⟩
    rw [← wordOf?_filter hfield a, fields, wordOf?_filter hfield b]
  | @further own word front a b first rest =>
    rw [wordOf?_append, wordOf?_append]
    by_cases hword : begins letter word = true
    · rw [wordOf?_cons_of_begins hword, wordOf?_cons_of_begins hword]
    · -- A letter that the word has not got keeps all its words behind it.
      have hkept (w : String) (hw : begins letter w = true) : (!begins own w) = true := by
        have hne : ¬ begins own w = true := by
          intro hown
          have heq : own = letter :=
            Option.some.inj ((beq_iff_eq.mp hown).symm.trans (beq_iff_eq.mp hw))
          exact hword (heq ▸ first)
        simpa using hne
      rw [wordOf?_cons_of_not_begins hword, wordOf?_cons_of_not_begins hword,
        ← wordOf?_filter hkept a, rest, wordOf?_filter hkept b]

/-- However many edits there are, each in either direction. -/
theorem sameFirstWords_of_edits {a b : List String} (h : Relation.EqvGen Edit a b) :
    SameFirstWords a b := by
  induction h with
  | rel a b h => exact h.sameFirstWords
  | refl a => exact fun _ _ => rfl
  | symm a b _ ih => exact fun letter hletter => (ih letter hletter).symm
  | trans a b c _ _ hab hbc =>
    exact fun letter hletter => (hab letter hletter).trans (hbc letter hletter)

section Table

variable {a b : Line} (h : SameFirstWords a.words b.words)
include h

theorem Line.word?_congr {letter : Char} (hletter : letter ∈ fieldLetters) :
    a.word? letter = b.word? letter := h letter hletter

/-- The blame falls on the same letter and the same word. -/
theorem Line.fault?_congr (hnumber : a.number = b.number) : a.fault? = b.fault? := by
  have hreads : ∀ letter ∈ fieldLetters, (!a.reads letter) = !b.reads letter := by
    intro letter hletter
    rw [reads, reads, word?_congr h hletter]
  unfold fault?
  rw [List.find?_congr hreads]
  apply Option.map_congr
  intro letter hletter
  have hmem : letter ∈ fieldLetters := List.mem_of_find?_eq_some hletter
  rw [malformed, malformed, hnumber, word?_congr h hmem]

theorem Line.fields_congr_firstWords {α : Type} [Scalar α] :
    (a.fields : Fields α) = b.fields := by
  have hvalue (letter : Char) (hletter : letter ∈ fieldLetters) :
      (a.value? letter : Option α) = b.value? letter := by
    rw [value?, value?, number?, number?, word?_congr h hletter]
  unfold fields
  rw [hvalue 'G' (by decide), hvalue 'X' (by decide), hvalue 'Y' (by decide),
    hvalue 'Z' (by decide), hvalue 'F' (by decide), hvalue 'I' (by decide),
    hvalue 'J' (by decide)]

end Table

end Nc

variable {α : Type} [Scalar α]

/-- In every state, lines of one number whose letters have the same first words lead to the same
state and the same move, or are at fault for the same letter and the same word; and no edits of the
words that leave the first word of each letter alone make a difference. -/
theorem Modal.interpretLine?_firstWords (s : Modal α) (sequence : Int) {a b : Line}
    (hnumber : a.number = b.number) :
    (SameFirstWords a.words b.words →
      s.interpretLine? a sequence = s.interpretLine? b sequence) ∧
    (Relation.EqvGen Edit a.words b.words →
      s.interpretLine? a sequence = s.interpretLine? b sequence) := by
  have hsame (h : SameFirstWords a.words b.words) :
      s.interpretLine? a sequence = s.interpretLine? b sequence := by
    rw [interpretLine?, interpretLine?, Fields.read?_eq, Fields.read?_eq,
      Line.fault?_congr h hnumber, Line.fields_congr_firstWords h]
  exact ⟨hsame, fun hedits => hsame (sameFirstWords_of_edits hedits)⟩

/-- A line at fault, its words in another order, without its number, with a tool word and with a
worse word behind the one to blame. -/
theorem Modal.interpretLine?_firstWords_at_fault :
    letI : Host := .standard
    let a := classify 7 "N10 G01 Xbad X1 F5"
    let b := classify 7 "f5 T2 xBAD G01 Xworse"
    let s : Modal Float := .start
    a.number = b.number ∧ SameFirstWords a.words b.words ∧ Relation.EqvGen Edit a.words b.words ∧
      s.interpretLine? a 0 = s.interpretLine? b 0 ∧
      s.interpretLine? b 0 = .error ⟨7, "X", "XBAD"⟩ := by
  let host : Host := .standard
  intro a b s
  have hb : b.words = ["F5", "T2", "XBAD", "G01", "XWORSE"] := by decide +kernel
  have hnumber : a.number = b.number := by decide +kernel
  have hother : Edit a.words ["G01", "T2", "XBAD", "X1", "F5"] := .other (by decide +kernel)
  have hfirst : begins 'X' "XBAD" = true := by decide
  have hfurther : Edit ["G01", "T2", "XBAD", "X1", "F5"] ["G01", "T2", "XBAD", "F5", "XWORSE"] :=
    .further ["G01", "T2"] hfirst (by decide)
  have hreorder : Edit ["G01", "T2", "XBAD", "F5", "XWORSE"] b.words := by
    rw [hb]
    refine .reorder (by decide) fun letter => ?_
    by_cases hG : 'G' = letter
    · subst hG
      decide
    by_cases hF : 'F' = letter
    · subst hF
      decide
    simp [begins, hG, hF, List.filter_cons]
  have hedits : Relation.EqvGen Edit a.words b.words :=
    .trans _ _ _ (.rel _ _ hother) (.trans _ _ _ (.rel _ _ hfurther) (.rel _ _ hreorder))
  have hsame : SameFirstWords a.words b.words := by decide +kernel
  have hmeaning := s.interpretLine?_firstWords 0 hnumber
  refine ⟨hnumber, hsame, hedits, hmeaning.1 hsame, ?_⟩
  rw [← hmeaning.2 hedits]
  apply interpretLine?_of_fault
  decide +kernel

end Waterjet
