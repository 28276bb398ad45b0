import Mathlib.Data.List.Forall2
import Waterjet.Estimate.Job
import Waterjet.Host.Standard
import Waterjet.Proofs.Verdict

/-! What a word can reach. Heights, center offsets and feed rates each have outputs of their own,
and nothing else depends on them. The words of such a group are put out of sight, first in the lines
and then in all that is made of them; two programs that cannot be told apart at the start cannot be
told apart at the end. -/
namespace Waterjet
open Scalar Nc Number

inductive WordGroup where
  | height
  | offsets
  | feed
  deriving DecidableEq

namespace WordGroup

def letters : WordGroup → List Char
  | height => ['Z']
  | offsets => ['I', 'J']
  | feed => ['F']

/-- The words that begin with none of the group's letters. -/
def others (group : WordGroup) (words : List String) : List String :=
  words.filter fun word => !group.letters.any fun letter => word.toList.head? == some letter

theorem wordOf?_others (group : WordGroup) (words : List String) (letter : Char) :
    wordOf? (group.others words) letter =
      if letter ∈ group.letters then none else wordOf? words letter := by
  have hbegins (word : String) (h : (word.toList.head? == some letter) = true) :
      (group.letters.any fun l => word.toList.head? == some l) =
        decide (letter ∈ group.letters) := by
    rw [beq_iff_eq.mp h, Bool.eq_iff_iff, List.any_eq_true, decide_eq_true_eq]
    constructor
    · rintro ⟨l, hl, heq⟩
      rwa [Option.some.inj (beq_iff_eq.mp heq)]
    · intro hl
      exact ⟨letter, hl, beq_self_eq_true _⟩
  unfold wordOf? others
  rw [List.find?_filter]
  by_cases hletter : letter ∈ group.letters
  · rw [if_pos hletter, List.find?_eq_none]
    intro word _ h
    rw [Bool.decide_and, Bool.and_eq_true, decide_eq_true_eq, decide_eq_true_eq] at h
    rw [hbegins word h.2] at h
    simp [hletter] at h
  · rw [if_neg hletter]
    congr 1
    funext word
    cases hword : (word.toList.head? == some letter) with
    | false => simp
    | true =>
      rw [hbegins word hword]
      simp [hletter]

end WordGroup

/-- Two lines that differ in words of the group at most. -/
def Nc.Line.AlikeBut (group : WordGroup) (a b : Line) : Prop :=
  a = b ∨ (a.isCommand = true ∧ b.isCommand = true ∧
    fieldLetters.any (misread a.words) = false ∧ fieldLetters.any (misread b.words) = false ∧
    group.others a.words = group.others b.words)

instance (group : WordGroup) (a b : Line) : Decidable (a.AlikeBut group b) :=
  inferInstanceAs (Decidable (_ ∨ _))

section Hiding

variable {α : Type}

def Fields.without (group : WordGroup) (fields : Fields α) : Fields α :=
  match group with
  | .height => { fields with z := none }
  | .offsets => { fields with i := none, j := none }
  | .feed => { fields with f := none }

def Point.flat (p : Point α) : Point α := { p with z := none }

def Drive.withoutCircle : Drive α → Drive α
  | .arc feed clockwise _ => .arc feed clockwise none
  | drive => drive

variable [Scalar α]

def Drive.withoutFeed : Drive α → Drive α
  | .rapid => .rapid
  | .line _ => .line (0 : Nat)
  | .arc _ clockwise circle => .arc (0 : Nat) clockwise circle

/-- The move, but for what the words of the group decide: heights at both ends, the circle of an
arc, or the feed rate of a cut. -/
def Move.without (group : WordGroup) (m : Move α) : Move α :=
  match group with
  | .height => { m with start := m.start.flat, finish := m.finish.flat }
  | .offsets => { m with drive := m.drive.withoutCircle }
  | .feed => { m with drive := m.drive.withoutFeed }

def Modal.without (group : WordGroup) (s : Modal α) : Modal α :=
  match group with
  | .height => { s with position := s.position.flat }
  | .offsets => s
  | .feed => { s with feed := (0 : Nat) }

def Motion.without (group : WordGroup) (m : Motion α) : Motion α :=
  { m with fields := m.fields.without group }

/-- The program, but for what the words of the group decide. Feed rates decide on the average speed
and on the number of samples as well. -/
def Program.without (group : WordGroup) (p : Program α) : Program α :=
  { p with
    moves := p.moves.map (Move.without group)
    averageSpeed := if group = .feed then (0 : Nat) else p.averageSpeed
    feedSamples := if group = .feed then 0 else p.feedSamples }

end Hiding

variable {α : Type} [Scalar α]

namespace Drive

omit [Scalar α] in
theorem command_withoutCircle (d : Drive α) : d.withoutCircle.command = d.command := by
  cases d with
  | rapid => rfl
  | line feed => rfl
  | arc feed clockwise circle => cases clockwise <;> rfl

theorem command_withoutFeed (d : Drive α) : d.withoutFeed.command = d.command := by
  cases d with
  | rapid => rfl
  | line feed => rfl
  | arc feed clockwise circle => cases clockwise <;> rfl

end Drive

namespace Modal

/-- A move shows of its state and its words no more than their visible part. -/
theorem move_without (group : WordGroup) (s : Modal α) (fields : Fields α) (command : Command)
    (n : Int) : (s.move fields command n).without group =
      ((s.without group).move (fields.without group) command n).without group := by
  cases group <;> cases command <;> rfl

theorem advance_without (group : WordGroup) (s : Modal α) (fields : Fields α) (kind : MoveKind) :
    (s.advance fields kind).without group =
      ((s.without group).advance (fields.without group) kind).without group := by
  cases group <;> rfl

end Modal

namespace Move

variable (group : WordGroup) (m : Move α)

@[simp] theorem sequence_without : (m.without group).sequence = m.sequence := by
  cases group <;> rfl

@[simp] theorem pierce_without : (m.without group).pierce = m.pierce := by
  cases group <;> rfl

@[simp] theorem chord_without : (m.without group).chord = m.chord := by
  cases group <;> rfl

@[simp] theorem command_without : (m.without group).command = m.command := by
  cases group with
  | height => rfl
  | offsets => exact m.drive.command_withoutCircle
  | feed => exact m.drive.command_withoutFeed

@[simp] theorem isCutting_without : (m.without group).isCutting = m.isCutting := by
  unfold isCutting kind
  rw [command_without]

end Move

namespace Tally

variable {group : WordGroup}

@[simp] theorem extend_without (group : WordGroup) (e : Option (Extents α)) (m : Move α) :
    extend e (m.without group) = extend e m := by
  cases group <;> rfl

theorem programmedFeed?_without (h : group ≠ .feed) (m : Move α) :
    programmedFeed? (m.without group) = programmedFeed? m := by
  obtain ⟨segment, drive⟩ := m
  cases group with
  | height => rfl
  | offsets => cases drive <;> rfl
  | feed => exact absurd rfl h

/-- Measures that cannot be told apart without the words of the group. -/
structure AgreeBut (group : WordGroup) (t u : Tally α) : Prop where
  moves : t.moves.toList.map (Move.without group) = u.moves.toList.map (Move.without group)
  cuttingLength : t.cuttingLength = u.cuttingLength
  rapidLength : t.rapidLength = u.rapidLength
  pierces : t.pierces = u.pierces
  extents : t.extents = u.extents
  feeds : group ≠ .feed → t.feeds = u.feeds

theorem AgreeBut.refl (t : Tally α) : AgreeBut group t t := ⟨rfl, rfl, rfl, rfl, rfl, fun _ => rfl⟩

theorem AgreeBut.add {t u : Tally α} (h : AgreeBut group t u) {m n : Move α}
    (hmove : m.without group = n.without group) : AgreeBut group (t.add m) (u.add n) := by
  have hcutting : m.isCutting = n.isCutting := by
    rw [← m.isCutting_without group, hmove, n.isCutting_without]
  have hchord : m.chord = n.chord := by
    rw [← m.chord_without group, hmove, n.chord_without]
  have hpierce : m.pierce = n.pierce := by
    rw [← m.pierce_without group, hmove, n.pierce_without]
  have hextend (e : Option (Extents α)) : extend e m = extend e n := by
    rw [← extend_without group e m, hmove, extend_without]
  constructor
  · rw [toList_moves_add, toList_moves_add, List.map_append, List.map_append, h.moves,
      List.map_singleton, List.map_singleton, hmove]
  · unfold Tally.add
    rw [hcutting, hchord, h.cuttingLength]
  · unfold Tally.add
    rw [hcutting, hchord, h.rapidLength]
  · unfold Tally.add
    rw [hpierce, h.pierces]
  · unfold Tally.add
    rw [h.extents, hextend]
  · intro hgroup
    have hfeed : programmedFeed? m = programmedFeed? n := by
      rw [← programmedFeed?_without hgroup m, hmove, programmedFeed?_without hgroup]
    unfold Tally.add
    rw [hfeed, h.feeds hgroup]

theorem AgreeBut.foldl {t u : Tally α} (h : AgreeBut group t u) {ms ns : List (Move α)}
    (hmoves : ms.map (Move.without group) = ns.map (Move.without group)) :
    AgreeBut group (ms.foldl Tally.add t) (ns.foldl Tally.add u) := by
  induction ms generalizing t u ns with
  | nil =>
    cases List.map_eq_nil_iff.mp hmoves.symm
    exact h
  | cons m ms ih =>
    obtain ⟨n, ns, rfl, hn, hns⟩ := List.map_eq_cons_iff.mp hmoves.symm
    exact ih (h.add hn.symm) hns.symm

end Tally

namespace Modal

variable {group : WordGroup}

theorem course_congr {s t : Modal α} (hstate : s.without group = t.without group)
    {ms ns : List (Motion α)}
    (hmotions : ms.map (Motion.without group) = ns.map (Motion.without group)) (n : Nat) :
    (s.course n ms).map (Move.without group) = (t.course n ns).map (Move.without group) := by
  induction ms generalizing s t n ns with
  | nil =>
    cases List.map_eq_nil_iff.mp hmotions.symm
    rfl
  | cons m ms ih =>
    obtain ⟨m', ns, rfl, hm, hns⟩ := List.map_eq_cons_iff.mp hmotions.symm
    obtain ⟨hfields, hcommand⟩ := Motion.mk.inj hm
    have hmove : (s.move m.fields m.command n).without group =
        (t.move m'.fields m'.command n).without group := by
      rw [move_without, move_without group t, hstate, hfields, hcommand]
    have hnext : (s.obey m).without group = (t.obey m').without group := by
      unfold obey
      rw [advance_without, advance_without group t, hstate, hfields, hcommand]
    rw [course, course, List.map_cons, List.map_cons, hmove, ih hnext hns.symm]

end Modal

theorem Fields.motion?_without (group : WordGroup) (fields : Fields α) :
    fields.motion?.map (Motion.without group) = (fields.without group).motion? := by
  have hcode : (fields.without group).g = fields.g := by cases group <;> rfl
  unfold motion?
  rw [hcode, Option.map_map]
  rfl

namespace Nc

variable {group : WordGroup}

theorem Line.value?_others (line : Line) (letter : Char) :
    (({ line with words := group.others line.words } : Line).value? letter : Option α) =
      if letter ∈ group.letters then none else line.value? letter := by
  have hword : ({ line with words := group.others line.words } : Line).word? letter =
      if letter ∈ group.letters then none else line.word? letter :=
    group.wordOf?_others line.words letter
  unfold value? number?
  rw [hword]
  split <;> rfl

theorem Line.fields_others (line : Line) :
    (({ line with words := group.others line.words } : Line).fields : Fields α) =
      line.fields.without group := by
  unfold fields
  simp only [value?_others]
  cases group <;> rfl

/-- Where no field is malformed, nothing is noted. -/
theorem Line.fault?_of_readable {line : Line}
    (h : fieldLetters.any (misread line.words) = false) : line.fault? = none := by
  rw [← Option.isNone_iff_eq_none, ← Option.not_isSome, line.isSome_fault?, h, Bool.not_false]

namespace Line.AlikeBut

variable {a b : Line}

theorem diagnostic?_eq (h : a.AlikeBut group b) : a.diagnostic? = b.diagnostic? := by
  rcases h with rfl | ⟨-, -, ha, hb, -⟩
  · rfl
  · unfold Line.diagnostic?
    simp only [fault?_of_readable ha, fault?_of_readable hb, Option.map_none, ite_self]

theorem map_motion?_eq (h : a.AlikeBut group b) :
    (a.motion? : Option (Motion α)).map (Motion.without group) =
      b.motion?.map (Motion.without group) := by
  rcases h with rfl | ⟨hcommanda, hcommandb, ha, hb, hwords⟩
  · rfl
  · have hfields : (a.fields : Fields α).without group = b.fields.without group := by
      rw [← fields_others, ← fields_others]
      exact fields_congr hwords
    unfold Line.motion?
    rw [fault?_of_readable ha, fault?_of_readable hb, hcommanda, hcommandb]
    exact (Fields.motion?_without group a.fields).trans
      (hfields ▸ (Fields.motion?_without group b.fields).symm)

end Line.AlikeBut

theorem filterMap_eq_of_forall₂ {β γ δ : Type} {R : β → γ → Prop} {f : β → Option δ}
    {g : γ → Option δ} (hfg : ∀ x y, R x y → f x = g y) {xs : List β} {ys : List γ}
    (h : List.Forall₂ R xs ys) : xs.filterMap f = ys.filterMap g := by
  induction h with
  | nil => rfl
  | cons hxy _ ih => rw [List.filterMap_cons, List.filterMap_cons, hfg _ _ hxy, ih]

theorem notes_confined {ls ms : List Line} (h : List.Forall₂ (Line.AlikeBut group) ls ms) :
    notes ls = notes ms :=
  filterMap_eq_of_forall₂ (fun _ _ hab => hab.diagnostic?_eq) h

theorem motions_confined {ls ms : List Line} (h : List.Forall₂ (Line.AlikeBut group) ls ms) :
    (motions ls : List (Motion α)).map (Motion.without group) =
      (motions ms).map (Motion.without group) := by
  rw [motions, motions, List.map_filterMap, List.map_filterMap]
  exact filterMap_eq_of_forall₂ (fun _ _ hab => hab.map_motion?_eq) h

end Nc

namespace Program

variable {group : WordGroup}

theorem ofTally_confined {t u : Tally α} (h : t.AgreeBut group u) (ds : List Diagnostic) :
    (ofTally t ds).without group = (ofTally u ds).without group := by
  have hspeed : group ≠ .feed → t.averageSpeed = u.averageSpeed := by
    intro hgroup
    unfold Tally.averageSpeed
    rw [h.feeds hgroup]
  have hsamples : group ≠ .feed → t.feeds.size = u.feeds.size := by
    intro hgroup
    rw [h.feeds hgroup]
  unfold without ofTally
  dsimp only
  rw [h.moves, h.cuttingLength, h.rapidLength, h.pierces, h.extents]
  by_cases hgroup : group = .feed
  · simp only [if_pos hgroup]
  · rw [hspeed hgroup, hsamples hgroup]

theorem without_parse {a b : String} (h : List.Forall₂ (Line.AlikeBut group) (lines a) (lines b)) :
    (parse a : Program α).without group = (parse b).without group := by
  have hmoves : (Modal.start.course 0 (motions (lines a)) : List (Move α)).map (Move.without group) =
      (Modal.start.course 0 (motions (lines b))).map (Move.without group) :=
    Modal.course_congr rfl (motions_confined h) 0
  rw [parse_eq, parse_eq, notes_confined h]
  exact ofTally_confined ((Tally.AgreeBut.refl .empty).foldl hmoves) _

/-- What no word of a height, an offset or a feed rate can reach. -/
structure SameMeasures (p q : Program α) : Prop where
  cuttingLength : p.cuttingLength = q.cuttingLength
  rapidLength : p.rapidLength = q.rapidLength
  pierces : p.pierces = q.pierces
  extents : p.extents = q.extents
  diagnostics : p.diagnostics = q.diagnostics
  sequences : p.moves.map (·.sequence) = q.moves.map (·.sequence)
  pierceMarks : p.moves.map (·.pierce) = q.moves.map (·.pierce)

/-- What is the same of each move in sight is the same of each move. -/
theorem map_moves_of_without {β : Type} {f : Move α → β} (hf : ∀ m, f (m.without group) = f m)
    {p q : Program α} (h : p.without group = q.without group) : p.moves.map f = q.moves.map f := by
  have hmap (r : Program α) : (r.without group).moves.map f = r.moves.map f := by
    change (r.moves.map (Move.without group)).map f = _
    rw [List.map_map]
    exact List.map_congr_left fun m _ => hf m
  rw [← hmap p, h, hmap q]

theorem sameMeasures_of_without {p q : Program α} (h : p.without group = q.without group) :
    p.SameMeasures q := by
  obtain ⟨-, hcutting, hrapid, hpierces, -, -, hextents, hdiagnostics⟩ := Program.mk.inj h
  exact ⟨hcutting, hrapid, hpierces, hextents, hdiagnostics,
    map_moves_of_without (Move.sequence_without group) h,
    map_moves_of_without (Move.pierce_without group) h⟩

/-- Of the three groups the estimate sees the feed rates only. -/
theorem estimate?_eq_of_without [Host] {p q : Program Float} (h : p.without group = q.without group)
    (hgroup : group ≠ .feed) (c : Config.Given) (pierceTime speed : Option Value) :
    p.estimate? c pierceTime speed = q.estimate? c pierceTime speed := by
  obtain ⟨-, hcutting, -, hpierces, hspeed, hsamples, -, -⟩ := Program.mk.inj h
  rw [if_neg hgroup, if_neg hgroup] at hspeed hsamples
  unfold estimate? inputs impliedSpeed
  rw [hpierces, hcutting, hspeed, hsamples]

/-- Each word reaches its own outputs only. Programs whose lines differ in words of one group at
most are the same but for what that group decides; the measures other than of speed are never
among it, and the time estimate is only with feed rates. -/
theorem parse_confined [Host] {a b : String}
    (h : List.Forall₂ (Line.AlikeBut group) (lines a) (lines b)) :
    (parse a : Program α).without group = (parse b).without group ∧
      (parse a : Program α).SameMeasures (parse b) ∧
      (group ≠ .feed → ∀ (c : Config.Given) (pierceTime speed : Option Value),
        (parse a : Program Float).estimate? c pierceTime speed =
          (parse b : Program Float).estimate? c pierceTime speed) := by
  have hwithout : (parse a : Program α).without group = (parse b).without group := without_parse h
  have hdoubles : (parse a : Program Float).without group = (parse b).without group :=
    without_parse h
  exact ⟨hwithout, sameMeasures_of_without hwithout, fun hgroup c pierceTime speed =>
    estimate?_eq_of_without hdoubles hgroup c pierceTime speed⟩

/-- An arc with and without a center, next to a line that is malformed in both programs. -/
theorem parse_confined_offsets :
    letI : Host := .standard
    let a := "I7 G2 X5 J2\nG1 Xq"
    let b := "G2 X5 J9\nG1 Xq"
    List.Forall₂ (Line.AlikeBut .offsets) (lines a) (lines b) ∧ a ≠ b ∧
      (parse a : Program Float).without .offsets = (parse b).without .offsets ∧
      (parse a : Program Float).SameMeasures (parse b) ∧
      (WordGroup.offsets ≠ .feed → ∀ (c : Config.Given) (pierceTime speed : Option Value),
        (parse a : Program Float).estimate? c pierceTime speed =
          (parse b : Program Float).estimate? c pierceTime speed) := by
  let host : Host := .standard
  intro a b
  have halike : List.Forall₂ (Line.AlikeBut .offsets) (lines a) (lines b) := by decide +kernel
  exact ⟨halike, by decide +kernel, parse_confined halike⟩

end Program

end Waterjet
