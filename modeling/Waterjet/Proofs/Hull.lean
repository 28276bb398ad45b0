import Waterjet.Host.Standard
import Waterjet.Proofs.Chain
import Waterjet.Proofs.Doubles

/-! The least rectangle around a path. Every end of every move lies in it and every side has an end
on it, so the order of the moves cannot matter. Whatever a program says, its coordinates are
numbers, and its rectangle is that of the origin and the points it moves to. -/
namespace Waterjet
open Scalar Nc Number

/-- A member of a list that stands in a relation to all of them. -/
structure Extreme (r : Float → Float → Prop) (a : Float) (xs : List Float) : Prop where
  mem : a ∈ xs
  all : ∀ x ∈ xs, r a x

namespace Extreme

variable {r : Float → Float → Prop} {a x : Float} {xs : List Float}

theorem congr (h : Extreme r a xs) {ys : List Float} (hys : ∀ y, y ∈ xs ↔ y ∈ ys) :
    Extreme r a ys where
  mem := (hys a).mp h.mem
  all y hy := h.all y ((hys y).mpr hy)

/-- With one more member the extreme one is that member if it goes beyond the old one, and the old
one if that reaches the new. -/
theorem choose {better : Bool} (h : Extreme r a xs) (hself : r x x)
    (hnew : better = true → ∀ y ∈ xs, r a y → r x y) (hold : better = false → r a x) :
    Extreme r (if better then x else a) (xs ++ [x]) := by
  cases better with
  | true =>
    refine ⟨List.mem_append_right _ (List.mem_singleton_self x), ?_⟩
    intro y hy
    rcases List.mem_append.mp hy with hy | hy
    · exact hnew rfl y hy (h.all y hy)
    · rwa [List.mem_singleton.mp hy]
  | false =>
    refine ⟨List.mem_append_left _ h.mem, ?_⟩
    intro y hy
    rcases List.mem_append.mp hy with hy | hy
    · exact h.all y hy
    · rw [List.mem_singleton.mp hy]
      exact hold rfl

theorem singleton (hx : r x x) : Extreme r x [x] where
  mem := List.mem_singleton_self x
  all y hy := by rwa [List.mem_singleton.mp hy]

section Numbers

variable [Host] (hxs : ∀ y ∈ xs, y.isNaN = false) (hx : x.isNaN = false)
include hxs hx

theorem lower (h : Extreme (· ≤ ·) a xs) : Extreme (· ≤ ·) (lower a x) (xs ++ [x]) := by
  have ha : a.isNaN = false := hxs a h.mem
  apply h.choose ((le_iff_rank hx hx).mpr le_rfl)
  · intro hlt y hy hay
    have hrank : rank x < rank a := (lt_iff_rank hx ha).mp (of_decide_eq_true hlt)
    have hrest : rank a ≤ rank y := (le_iff_rank ha (hxs y hy)).mp hay
    exact (le_iff_rank hx (hxs y hy)).mpr (hrank.le.trans hrest)
  · intro hlt
    have hrank : ¬ rank x < rank a := mt (lt_iff_rank hx ha).mpr (of_decide_eq_false hlt)
    exact (le_iff_rank ha hx).mpr (not_lt.mp hrank)

theorem upper (h : Extreme (· ≥ ·) a xs) : Extreme (· ≥ ·) (upper a x) (xs ++ [x]) := by
  have ha : a.isNaN = false := hxs a h.mem
  apply h.choose ((le_iff_rank hx hx).mpr le_rfl)
  · intro hlt y hy hya
    have hrank : rank a < rank x := (lt_iff_rank ha hx).mp (of_decide_eq_true hlt)
    have hrest : rank y ≤ rank a := (le_iff_rank (hxs y hy) ha).mp hya
    exact (le_iff_rank (hxs y hy) hx).mpr (hrest.trans hrank.le)
  · intro hlt
    have hrank : ¬ rank a < rank x := mt (lt_iff_rank ha hx).mpr (of_decide_eq_false hlt)
    exact (le_iff_rank hx ha).mpr (not_lt.mp hrank)

end Numbers

end Extreme

/-- A point whose coordinates are numbers, be they infinite. -/
structure Point.IsNumeric (p : Point Float) : Prop where
  x : p.x.isNaN = false
  y : p.y.isNaN = false
  z : ∀ z, p.z = some z → z.isNaN = false

namespace Extents

/-- A rectangle that no point lies outside of and that could not be smaller. -/
structure Hull (e : Extents Float) (points : List (Point Float)) : Prop where
  minX : Extreme (· ≤ ·) e.minX (points.map (·.x))
  maxX : Extreme (· ≥ ·) e.maxX (points.map (·.x))
  minY : Extreme (· ≤ ·) e.minY (points.map (·.y))
  maxY : Extreme (· ≥ ·) e.maxY (points.map (·.y))

/-- Rectangles whose sides are equal as numbers. -/
def same (d e : Extents Float) : Bool :=
  d.minX == e.minX && d.maxX == e.maxX && d.minY == e.minY && d.maxY == e.maxY

namespace Hull

variable {e : Extents Float} {points : List (Point Float)}

/-- Only which points there are counts, not their order. -/
theorem congr (h : e.Hull points) {others : List (Point Float)}
    (hothers : ∀ p, p ∈ points ↔ p ∈ others) : e.Hull others := by
  have hmap (f : Point Float → Float) (x : Float) : x ∈ points.map f ↔ x ∈ others.map f := by
    simp only [List.mem_map, hothers]
  exact ⟨h.minX.congr (hmap _), h.maxX.congr (hmap _), h.minY.congr (hmap _),
    h.maxY.congr (hmap _)⟩

theorem around {p : Point Float} (hp : p.IsNumeric) : (around p).Hull [p] := by
  have hx : p.x ≤ p.x := (le_iff_rank hp.x hp.x).mpr le_rfl
  have hy : p.y ≤ p.y := (le_iff_rank hp.y hp.y).mpr le_rfl
  exact ⟨.singleton hx, .singleton hx, .singleton hy, .singleton hy⟩

theorem extend [Host] (h : e.Hull points) (hpoints : ∀ q ∈ points, q.IsNumeric) {p : Point Float}
    (hp : p.IsNumeric) : (e.extend p).Hull (points ++ [p]) := by
  have hxs : ∀ x ∈ points.map (·.x), x.isNaN = false :=
    List.forall_mem_map.mpr fun q hq => (hpoints q hq).x
  have hys : ∀ y ∈ points.map (·.y), y.isNaN = false :=
    List.forall_mem_map.mpr fun q hq => (hpoints q hq).y
  constructor <;> rw [List.map_append]
  · exact h.minX.lower hxs hp.x
  · exact h.maxX.upper hxs hp.x
  · exact h.minY.lower hys hp.y
  · exact h.maxY.upper hys hp.y

/-- Two hulls of the same points can differ in the signs of zeros only. -/
theorem same {d : Extents Float} (h : e.Hull points) (hd : d.Hull points)
    (hpoints : ∀ q ∈ points, q.IsNumeric) : d.same e = true := by
  have hxs : ∀ x ∈ points.map (·.x), x.isNaN = false :=
    List.forall_mem_map.mpr fun q hq => (hpoints q hq).x
  have hys : ∀ y ∈ points.map (·.y), y.isNaN = false :=
    List.forall_mem_map.mpr fun q hq => (hpoints q hq).y
  have hminX : (d.minX == e.minX) = true := beq_of_le_of_le (hxs _ hd.minX.mem)
    (hxs _ h.minX.mem) (hd.minX.all _ h.minX.mem) (h.minX.all _ hd.minX.mem)
  have hmaxX : (d.maxX == e.maxX) = true := beq_of_le_of_le (hxs _ hd.maxX.mem)
    (hxs _ h.maxX.mem) (h.maxX.all _ hd.maxX.mem) (hd.maxX.all _ h.maxX.mem)
  have hminY : (d.minY == e.minY) = true := beq_of_le_of_le (hys _ hd.minY.mem)
    (hys _ h.minY.mem) (hd.minY.all _ h.minY.mem) (h.minY.all _ hd.minY.mem)
  have hmaxY : (d.maxY == e.maxY) = true := beq_of_le_of_le (hys _ hd.maxY.mem)
    (hys _ h.maxY.mem) (h.maxY.all _ hd.maxY.mem) (hd.maxY.all _ h.maxY.mem)
  unfold Extents.same
  rw [hminX, hmaxX, hminY, hmaxY]
  rfl

end Hull

end Extents

/-- Both ends of every move. -/
def corners {α : Type} (moves : List (Move α)) : List (Point α) :=
  moves.flatMap fun m => [m.start, m.finish]

theorem corners_concat {α : Type} (moves : List (Move α)) (m : Move α) :
    corners (moves ++ [m]) = corners moves ++ [m.start] ++ [m.finish] := by
  unfold corners
  rw [List.flatMap_append, List.flatMap_singleton, List.append_assoc]
  rfl

namespace Chained

variable {α : Type} [Scalar α] {moves : List (Move α)} {s : Modal α}

/-- A move begins at the origin or where another ends. -/
theorem start_cases (h : Chained moves s) {m : Move α} (hm : m ∈ moves) :
    m.start = Point.origin ∨ ∃ previous ∈ moves, previous.finish = m.start := by
  obtain ⟨k, hk, rfl⟩ := List.getElem_of_mem hm
  cases k with
  | zero => exact .inl (h.first _ (List.head?_eq_getElem? ▸ List.getElem?_eq_getElem hk))
  | succ k =>
    have hlinked := List.isChain_iff_getElem.mp h.linked k hk
    exact .inr ⟨moves[k], List.getElem_mem _, hlinked.symm⟩

/-- The ends of the moves are the origin and the points moved to. -/
theorem mem_corners_iff (h : Chained moves s) (hne : moves ≠ []) (q : Point α) :
    q ∈ corners moves ↔ q ∈ Point.origin :: moves.map (·.finish) := by
  simp only [corners, List.mem_flatMap, List.mem_cons, List.mem_map, List.not_mem_nil, or_false]
  constructor
  · rintro ⟨m, hm, rfl | rfl⟩
    · exact (h.start_cases hm)
    · exact .inr ⟨m, hm, rfl⟩
  · rintro (rfl | ⟨m, hm, rfl⟩)
    · obtain ⟨first, rest, rfl⟩ := List.exists_cons_of_ne_nil hne
      exact ⟨first, List.mem_cons_self, .inl (h.first first rfl).symm⟩
    · exact ⟨m, hm, .inr rfl⟩

end Chained

namespace Tally

/-- Extents that are those of the moves, none for none. -/
def Encloses (extents : Option (Extents Float)) (moves : List (Move Float)) : Prop :=
  match extents with
  | none => moves = []
  | some e => e.Hull (corners moves)

variable [Host]

theorem encloses_extend {extents : Option (Extents Float)} {moves : List (Move Float)}
    (h : Encloses extents moves) (hmoves : ∀ q ∈ corners moves, q.IsNumeric) {m : Move Float}
    (hstart : m.start.IsNumeric) (hfinish : m.finish.IsNumeric) :
    Encloses (some (extend extents m)) (moves ++ [m]) := by
  unfold Encloses extend
  rw [corners_concat]
  cases extents with
  | none =>
    -- The first start opens the rectangle and is then put in again.
    cases h
    have hpoints : ∀ q ∈ [m.start] ++ [m.start], q.IsNumeric := by simpa using hstart
    have hhull := ((Extents.Hull.around hstart).extend (by simpa using hstart) hstart).extend
      hpoints hfinish
    exact hhull.congr fun p => by simp [corners]
  | some e =>
    have hpoints : ∀ q ∈ corners moves ++ [m.start], q.IsNumeric := by
      simpa [or_imp, forall_and] using ⟨hmoves, hstart⟩
    exact (Extents.Hull.extend h hmoves hstart).extend hpoints hfinish

theorem encloses_foldl {t : Tally Float} {done : List (Move Float)} (h : Encloses t.extents done)
    (moves : List (Move Float)) (hall : ∀ q ∈ corners (done ++ moves), q.IsNumeric) :
    Encloses (moves.foldl add t).extents (done ++ moves) := by
  induction moves generalizing t done with
  | nil => rwa [List.append_nil]
  | cons m moves ih =>
    have hsplit : done ++ m :: moves = done ++ [m] ++ moves := by simp
    have hcorners (q : Point Float) (hq : q ∈ corners (done ++ [m])) : q.IsNumeric := by
      rw [hsplit, corners, List.flatMap_append] at hall
      exact hall q (List.mem_append_left _ hq)
    rw [corners_concat] at hcorners
    have hadd : Encloses (t.add m).extents (done ++ [m]) := by
      apply encloses_extend h
      · intro q hq
        exact hcorners q (by simp [hq])
      · exact hcorners m.start (by simp)
      · exact hcorners m.finish (by simp)
    rw [hsplit] at hall ⊢
    exact ih hadd hall

end Tally

namespace Program

variable [Host]

theorem hull_ofMoves {moves : List (Move Float)} (hne : moves ≠ [])
    (hmoves : ∀ q ∈ corners moves, q.IsNumeric) (ds : List Diagnostic) :
    (ofMoves moves ds).extents.Hull (corners moves) := by
  have hempty : Tally.Encloses (Tally.empty : Tally Float).extents [] := rfl
  have hencloses : Tally.Encloses (Tally.ofMoves moves).extents moves :=
    Tally.encloses_foldl hempty moves hmoves
  change ((Tally.ofMoves moves).extents.getD .zero).Hull (corners moves)
  cases hextents : (Tally.ofMoves moves).extents with
  | none =>
    rw [hextents] at hencloses
    exact absurd hencloses hne
  | some e =>
    rw [hextents] at hencloses
    exact hencloses

end Program

/-- Whatever letter a line names, it gives a number. -/
theorem Nc.Line.isNaN_of_value? [Host] {line : Line} {letter : Char} {v : Float}
    (h : line.value? letter = some v) : v.isNaN = false := by
  obtain ⟨d, -, hd⟩ := Option.map_eq_some_iff.mp h
  rw [← hd]
  exact isNaN_toDouble d

/-- What a line says of a coordinate is a number, so no motion leads anywhere else. -/
theorem Modal.isNumeric_target [Host] {s : Modal Float} (h : s.position.IsNumeric) (line : Line) :
    (s.target line.fields).IsNumeric := by
  have hget (letter : Char) (kept : Float) (hkept : kept.isNaN = false) :
      ((line.value? letter).getD kept).isNaN = false := by
    cases hv : (line.value? letter : Option Float) with
    | none => exact hkept
    | some v => exact Line.isNaN_of_value? hv
  constructor
  · exact hget 'X' _ h.x
  · exact hget 'Y' _ h.y
  · intro z hz
    have hz : (line.value? 'Z').or s.position.z = some z := hz
    cases hv : (line.value? 'Z' : Option Float) with
    | none =>
      rw [hv, Option.none_or] at hz
      exact h.z z hz
    | some v =>
      rw [hv, Option.some_or] at hz
      cases hz
      exact Line.isNaN_of_value? hv

namespace Reader

variable [Host]

/-- Everywhere that the moves have been, and the point where they are now. -/
def points (r : Reader Float) : List (Point Float) :=
  corners r.program.moves ++ [r.modal.position]

theorem isNumeric_step (r : Reader Float) (line : Line) (h : ∀ q ∈ r.points, q.IsNumeric) :
    ∀ q ∈ (r.step line).points, q.IsNumeric := by
  obtain ⟨m, hm, -, hs⟩ | ⟨d, -, -, hs⟩ | ⟨-, -, hs⟩ := r.step_cases line
  · have hmoves : (r.obey m).program.moves =
        r.program.moves ++ [r.modal.move m.fields m.command r.program.moves.length] :=
      Tally.toList_moves_add ..
    have hpoints : (r.obey m).points =
        r.points ++ [r.modal.target m.fields] ++ [r.modal.target m.fields] := by
      rw [points, hmoves, corners_concat]
      rfl
    have hposition : r.modal.position.IsNumeric := h _ (by simp [points])
    have htarget : (r.modal.target m.fields).IsNumeric := by
      rw [(Line.fields_of_motion? hm).1]
      exact Modal.isNumeric_target hposition line
    rw [hs, hpoints]
    intro q hq
    rcases List.mem_append.mp hq with hq | hq
    · rcases List.mem_append.mp hq with hq | hq
      · exact h q hq
      · rwa [List.mem_singleton.mp hq]
    · rwa [List.mem_singleton.mp hq]
  · rw [hs]
    exact h
  · rw [hs]
    exact h

theorem isNumeric_run (r : Reader Float) (lines : List Line) (h : ∀ q ∈ r.points, q.IsNumeric) :
    ∀ q ∈ (r.run lines).points, q.IsNumeric := by
  induction lines generalizing r with
  | nil => exact h
  | cons line lines ih => exact ih (r.step line) (r.isNumeric_step line h)

end Reader

theorem Point.isNumeric_origin [Host] : (origin : Point Float).IsNumeric := by
  have hzero : (Float.ofNat 0).isNaN = false := by decide
  refine ⟨hzero, hzero, ?_⟩
  rintro z ⟨⟩
  exact hzero

namespace Program

section Parsed

variable [Host]

theorem isNumeric_parse (text : String) :
    ∀ q ∈ corners (parse text : Program Float).moves, q.IsNumeric := by
  have hstart : ∀ q ∈ (Reader.start : Reader Float).points, q.IsNumeric := by
    intro q hq
    have hq : q = Point.origin := List.mem_singleton.mp hq
    rw [hq]
    exact Point.isNumeric_origin
  have hrun := Reader.isNumeric_run .start (lines text) hstart
  intro q hq
  exact hrun q (List.mem_append_left _ hq)

/-- The extents are the hull of all ends of the moves, whatever the moves are, and the order of the
moves cannot make them other numbers. A program has numbers for coordinates only, so its extents are
the hull of the origin and of the points it moves to, and nothing but zeros if it does not move. -/
theorem extents_hull :
    (∀ (moves : List (Move Float)) (ds : List Diagnostic), moves ≠ [] →
      (∀ q ∈ corners moves, q.IsNumeric) →
        (ofMoves moves ds).extents.Hull (corners moves) ∧
        ∀ (others : List (Move Float)) (es : List Diagnostic), others.Perm moves →
          (ofMoves others es).extents.same (ofMoves moves ds).extents = true) ∧
    ∀ text : String,
      let p : Program Float := parse text
      (∀ q ∈ corners p.moves, q.IsNumeric) ∧
      (p.moves ≠ [] → p.extents.Hull (Point.origin :: p.moves.map (·.finish))) ∧
      (p.moves = [] → p.extents = .zero) := by
  constructor
  · intro moves ds hne hmoves
    have hhull := hull_ofMoves hne hmoves ds
    refine ⟨hhull, ?_⟩
    intro others es hperm
    have hcorners (q : Point Float) : q ∈ corners others ↔ q ∈ corners moves :=
      (hperm.flatMap_right _).mem_iff
    have hothers : (ofMoves others es).extents.Hull (corners others) := by
      apply hull_ofMoves
      · rintro rfl
        exact hne hperm.nil_eq.symm
      · intro q hq
        exact hmoves q ((hcorners q).mp hq)
    exact hhull.same (hothers.congr hcorners) hmoves
  · intro text p
    have hnumeric : ∀ q ∈ corners p.moves, q.IsNumeric := isNumeric_parse text
    have hp : ofMoves p.moves p.diagnostics = p := ofMoves_parse text
    refine ⟨hnumeric, ?_, ?_⟩
    · intro hne
      have hchained : Chained p.moves _ := Reader.chained_run Reader.start (lines text) .nil
      have hhull := hull_ofMoves hne hnumeric p.diagnostics
      rw [hp] at hhull
      exact hhull.congr (hchained.mem_corners_iff hne)
    · intro hnil
      rw [← hp, hnil]
      rfl

end Parsed

/-- Away from the origin, and with both zeros for a side: which of them it is depends on the
order. -/
theorem extents_hull_zeros :
    letI : Host := .standard
    let a : Move Float := ⟨⟨⟨-3, 0, none⟩, ⟨-1, 5, none⟩, 0, false⟩, .rapid⟩
    let b : Move Float := ⟨⟨⟨-1, 5, none⟩, ⟨-2, -0.0, none⟩, 1, true⟩, .line 100⟩
    (∀ q ∈ corners [a, b], q.IsNumeric) ∧
      (ofMoves [a, b] []).extents.Hull (corners [a, b]) ∧
      (ofMoves [b, a] []).extents.same (ofMoves [a, b] []).extents = true ∧
      (ofMoves [b, a] []).extents.minY ≠ (ofMoves [a, b] []).extents.minY := by
  let host : Host := .standard
  intro a b
  have hnumeric : ∀ q ∈ corners [a, b], q.IsNumeric := by
    have hfinite : (corners [a, b]).all
        (fun q => !q.x.isNaN && !q.y.isNaN && q.z.isNone) = true := by decide
    intro q hq
    have h := List.all_eq_true.mp hfinite q hq
    simp only [Bool.and_eq_true, Bool.not_eq_true', Option.isNone_iff_eq_none] at h
    exact ⟨h.1.1, h.1.2, fun z hz => by rw [h.2] at hz; cases hz⟩
  obtain ⟨hhull, hany⟩ := extents_hull.1 [a, b] [] (List.cons_ne_nil _ _) hnumeric
  exact ⟨hnumeric, hhull, hany [b, a] [] (.swap a b []), by decide⟩

end Program

end Waterjet
