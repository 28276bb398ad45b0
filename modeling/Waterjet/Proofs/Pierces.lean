import Waterjet.Proofs.Course

/-! Where the jet pierces. The mark of a move is set from the state that the last motion line left,
however many other lines stand between; counted over a path, the marks are one for each maximal run
of cuts. -/
namespace Waterjet
open Scalar Nc

variable {α : Type} [Scalar α]

/-- The maximal runs of cuts in a path: what rapids, and nothing else, divide. -/
def cuttingRuns (moves : List (Move α)) : List (List (Move α)) :=
  (moves.splitOnP (·.isRapid)).filter (!·.isEmpty)

omit [Scalar α] in
theorem Move.isRapid_eq (m : Move α) : m.isRapid = !m.isCutting := by
  unfold isRapid isCutting
  cases m.kind <;> rfl

section Runs

omit [Scalar α]

theorem cuttingRuns_cons_of_rapid {m : Move α} (h : m.isRapid = true) (moves : List (Move α)) :
    cuttingRuns (m :: moves) = cuttingRuns moves := by
  unfold cuttingRuns
  rw [List.splitOnP_cons_eq_if_modifyHead, if_pos h]
  rfl

/-- A cut in front joins the run that follows it, if one does, or makes a run of its own. -/
theorem length_cuttingRuns_cons {m : Move α} (h : m.isCutting = true) (moves : List (Move α)) :
    (cuttingRuns (m :: moves)).length + (if moves.head?.any (·.isCutting) then 1 else 0) =
      (cuttingRuns moves).length + 1 := by
  have hm : m.isRapid = false := by rw [m.isRapid_eq, h, Bool.not_true]
  unfold cuttingRuns
  rw [List.splitOnP_cons_eq_if_modifyHead, hm]
  cases moves with
  | nil => rfl
  | cons a rest =>
    rw [List.splitOnP_cons_eq_if_modifyHead, List.head?_cons, Option.any_some]
    cases ha : a.isRapid with
    | true =>
      have hcut : a.isCutting = false := by simpa [a.isRapid_eq] using ha
      simp [hcut]
    | false =>
      have hcut : a.isCutting = true := by simpa [a.isRapid_eq] using ha
      obtain ⟨p, ps, hsplit⟩ := List.exists_cons_of_ne_nil (List.splitOnP_ne_nil (·.isRapid) rest)
      simp [hcut, hsplit]

end Runs

namespace Modal

theorem isCutting_move (s : Modal α) (fields : Fields α) (command : Command) (n : Int) :
    (s.move fields command n).isCutting = (command.kind == .cutting) := by
  unfold Move.isCutting Move.kind
  rw [command_move]

theorem isRapid_move (s : Modal α) (fields : Fields α) (command : Command) (n : Int) :
    (s.move fields command n).isRapid = (command.kind == .rapid) := by
  unfold Move.isRapid Move.kind
  rw [command_move]

/-- One mark for each run of cuts, but for a first run that goes on from the state. -/
theorem countP_pierce_course (s : Modal α) (n : Nat) (ms : List (Motion α)) :
    (s.course n ms).countP (·.pierce) +
        (if s.lastKind == .cutting && (s.course n ms).head?.any (·.isCutting) then 1 else 0) =
      (cuttingRuns (s.course n ms)).length := by
  induction ms generalizing s n with
  | nil => simp [course, cuttingRuns]
  | cons m ms ih =>
    have hrest := ih (s.obey m) (n + 1)
    have hkind : (s.obey m).lastKind = m.command.kind := rfl
    have hpierce : (s.move m.fields m.command n).pierce =
        (s.lastKind == .rapid && m.command.kind == .cutting) := rfl
    have hcut := isCutting_move s m.fields m.command n
    rw [hkind] at hrest
    rw [course, List.countP_cons, List.head?_cons, Option.any_some, hpierce, hcut]
    cases hm : m.command.kind with
    | rapid =>
      have hrapid := isRapid_move s m.fields m.command n
      rw [hm] at hrapid hrest
      rw [cuttingRuns_cons_of_rapid hrapid, ← hrest]
      simp
    | cutting =>
      rw [hm] at hcut hrest
      have hruns := length_cuttingRuns_cons hcut ((s.obey m).course (n + 1) ms)
      have hone : (if s.lastKind == .rapid then 1 else 0) +
          (if s.lastKind == .cutting then 1 else 0) = 1 := by
        cases s.lastKind <;> rfl
      simp only [beq_self_eq_true, Bool.and_true, Bool.true_and] at hrest ⊢
      omega

/-- The state that a move starts from remembers the kind of the move before it. -/
theorem pierce_course (ms : List (Motion α)) {k : Nat} {move : Move α}
    (h : (start.course 0 ms)[k]? = some move) :
    move.pierce = true ↔ move.isCutting = true ∧
      (k = 0 ∨ ∃ previous, (start.course 0 ms)[k - 1]? = some previous ∧
        previous.isRapid = true) := by
  rw [getElem?_course] at h
  obtain ⟨m, hm, rfl⟩ := Option.map_eq_some_iff.mp h
  have hpierce (s : Modal α) (n : Int) : (s.move m.fields m.command n).pierce = true ↔
      (s.move m.fields m.command n).isCutting = true ∧ s.lastKind = .rapid := by
    change (s.lastKind == .rapid && m.command.kind == .cutting) = true ↔ _
    rw [isCutting_move, Bool.and_eq_true, beq_iff_eq, and_comm]
  rw [hpierce]
  cases k with
  | zero => exact and_congr_right fun _ => iff_of_true rfl (.inl rfl)
  | succ k =>
    have hlt : k < ms.length := by
      have := (List.getElem?_eq_some_iff.mp hm).1
      omega
    have htake : ms.take (k + 1) = ms.take k ++ [ms[k]] := List.take_succ_eq_append_getElem hlt
    have hlast : (start.after (ms.take (k + 1))).lastKind = ms[k].command.kind := by
      rw [htake, after_concat]
      rfl
    have hprevious : (start.course 0 ms)[k]? =
        some ((start.after (ms.take k)).move ms[k].fields ms[k].command (0 + k : Nat)) := by
      rw [getElem?_course, List.getElem?_eq_getElem hlt]
      rfl
    rw [hlast, Nat.add_sub_cancel, hprevious]
    simp [isRapid_move]

end Modal

theorem Tally.pierces_foldl (t : Tally α) (moves : List (Move α)) :
    (moves.foldl add t).pierces = t.pierces + moves.countP (·.pierce) := by
  induction moves generalizing t with
  | nil => rfl
  | cons m moves ih =>
    have hadd : (t.add m).pierces = if m.pierce then t.pierces + 1 else t.pierces := rfl
    rw [List.foldl_cons, ih, hadd, List.countP_cons]
    split <;> omega

theorem Program.pierces_parse (text : String) :
    (parse text : Program α).pierces = (parse text : Program α).moves.countP (·.pierce) := by
  rw [moves_parse, parse_eq]
  exact (Tally.pierces_foldl .empty _).trans (Nat.zero_add _)

/-- Texts with the same words on their motion lines have the same motions. -/
theorem Nc.motions_congr {a b : List Line}
    (h : (motionLines α a).map (·.words) = (motionLines α b).map (·.words)) :
    (motions a : List (Motion α)) = motions b := by
  have hfields (lines : List Line) : lines.map (Line.fields : Line → Fields α) =
      (lines.map (·.words)).map fun words => Line.fields ⟨0, "", .command, words⟩ := by
    rw [List.map_map]
    exact List.map_congr_left fun line _ => Line.fields_congr rfl
  rw [motions_eq_filterMap, motions_eq_filterMap, hfields, hfields, h]

/-- Pierces of a whole program. A move is marked exactly if it is a cut that opens the path or
follows a rapid, the count is that of the runs of cuts, and nothing but the words of the motion
lines has a say in the marked path or in the count. -/
theorem Program.parse_pierces (text : String) :
    let p : Program α := parse text
    (∀ (k : Nat) (move : Move α), p.moves[k]? = some move →
      (move.pierce = true ↔ move.isCutting = true ∧
        (k = 0 ∨ ∃ previous, p.moves[k - 1]? = some previous ∧ previous.isRapid = true))) ∧
    p.pierces = (cuttingRuns p.moves).length ∧
    p.pierces = p.piercePoints.length ∧
    ∀ other : String,
      (motionLines α (lines other)).map (·.words) = (motionLines α (lines text)).map (·.words) →
      (parse other : Program α).moves = p.moves ∧
        (parse other : Program α).pierces = p.pierces := by
  intro p
  have hmoves : p.moves = Modal.start.course 0 (motions (lines text)) := moves_parse text
  have hcount : p.pierces = p.moves.countP (·.pierce) := pierces_parse text
  refine ⟨?_, ?_, ?_, ?_⟩
  · rw [hmoves]
    exact fun k move => Modal.pierce_course _
  · have hruns := Modal.countP_pierce_course (.start : Modal α) 0 (motions (lines text))
    rw [hcount, hmoves, ← hruns]
    rfl
  · rw [hcount, piercePoints, List.countP_eq_length_filter]
  · intro other hother
    have hsame : (parse other : Program α).moves = p.moves := by
      rw [hmoves, moves_parse, motions_congr hother]
    exact ⟨hsame, by rw [pierces_parse, hsame, hcount]⟩

end Waterjet
