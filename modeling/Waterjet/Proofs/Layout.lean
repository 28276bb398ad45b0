import Waterjet.Host.Standard
import Waterjet.Proofs.Pieces
import Waterjet.Proofs.Printing

/-! The lines of a report. Each part of a report has its number of lines, and every line is
printable, so the line feeds of the report are those between its lines: nothing in a program can
add a line to it, break one in two or take one away. -/
namespace Waterjet
open Number Nc Text

theorem Nc.pieces_intercalate {ls : List String} (hne : ls ≠ []) (h : ∀ l ∈ ls, '\n' ∉ l.toList) :
    pieces ("\n".intercalate ls) = ls.map String.toList := by
  have hnewline : "\n".toList = ['\n'] := rfl
  rw [pieces, String.toList_intercalate, hnewline]
  apply List.splitOn_intercalate
  · exact List.forall_mem_map.mpr h
  · simpa using hne

namespace Report

section Parts

variable {p : Program Float} {c : Calculation} {ls : List String}

theorem isPlain_amount (x : Float) : IsPlain (amount x).toList := isPlain_fixed 2 x

theorem isPlain_countLines (points : Option Int) : ∀ l ∈ countLines p points, IsPlain l.toList := by
  simp [countLines, toString, isPlain_toDigits, isPlain_written, isPrintable_of_ascii]

theorem isPlain_measureLines [Host] : ∀ l ∈ measureLines p, IsPlain l.toList := by
  simp [measureLines, extentsText, toString, isPlain_amount, isPrintable_of_ascii]

theorem timeLines?_eq_ok [Host] (h : timeLines? c = .ok ls) :
    ls.length = 4 ∧ ∀ l ∈ ls, IsPlain l.toList := by
  obtain ⟨pierceTime, hpierceTime, h⟩ := bind_eq_ok_iff.mp h
  obtain ⟨piercing, hpiercing, h⟩ := bind_eq_ok_iff.mp h
  obtain ⟨perimeter, hperimeter, h⟩ := bind_eq_ok_iff.mp h
  obtain ⟨speed, hspeed, h⟩ := bind_eq_ok_iff.mp h
  obtain ⟨cutting, hcutting, h⟩ := bind_eq_ok_iff.mp h
  obtain ⟨total, htotal, h⟩ := bind_eq_ok_iff.mp h
  cases h
  have hpierceTime := Quantity.isPlain_fixed? hpierceTime
  have hpiercing := Quantity.isPlain_fixed? hpiercing
  have hperimeter := Quantity.isPlain_fixed? hperimeter
  have hspeed := Quantity.isPlain_fixed? hspeed
  have hcutting := Quantity.isPlain_fixed? hcutting
  have htotal := Clock.isPlain_formatQuantity? htotal
  refine ⟨rfl, ?_⟩
  simp [toString, Quantity.isPlain_text, hpierceTime, hpiercing, hperimeter, hspeed, hcutting,
    htotal, isPrintable_of_ascii]

theorem isPlain_referenceLine? [Host] {total reference : Quantity} {l : String}
    (h : referenceLine? total reference = .ok l) : IsPlain l.toList := by
  obtain ⟨time, htime, h⟩ := bind_eq_ok_iff.mp h
  obtain ⟨difference, hdifference, h⟩ := bind_eq_ok_iff.mp h
  cases h
  have htime := Clock.isPlain_formatQuantity? htime
  have hdifference := Clock.isPlain_difference? hdifference
  simp [toString, htime, hdifference, isPrintable_of_ascii]

theorem isPlain_skippedLines {ds : List Diagnostic} (h : ∀ d ∈ ds, IsPlain d.message.toList) :
    ∀ l ∈ skippedLines ds, IsPlain l.toList := by
  cases ds with
  | nil => nofun
  | cons d ds =>
    have hcount : IsPlain (s!"Skipped lines ({(d :: ds).length})").toList := by
      simp [toString, isPlain_toDigits, isPrintable_of_ascii]
    have hnote : ∀ e ∈ d :: ds, IsPlain (s!"  {e.describe}").toList := by
      intro e he
      simp [toString, Diagnostic.isPlain_describe (h e he), isPrintable_of_ascii]
    change ∀ l ∈ "" :: s!"Skipped lines ({(d :: ds).length})" :: (d :: ds).map _, _
    rw [List.forall_mem_cons, List.forall_mem_cons, List.forall_mem_map]
    exact ⟨.nil, hcount, hnote⟩

/-- The line of the comparison is there if there is something to compare with. -/
theorem comparison_eq_ok [Host] {total : Quantity} {reference : Option Value}
    (h : (reference.toList.mapM fun v => Clock.withQuantity? v (referenceLine? total)) = .ok ls) :
    ls.length = reference.toList.length ∧ ∀ l ∈ ls, IsPlain l.toList := by
  cases reference with
  | none =>
    cases h
    exact ⟨rfl, nofun⟩
  | some v =>
    rw [Option.toList_some, List.mapM_cons] at h
    obtain ⟨l, hl, h⟩ := bind_eq_ok_iff.mp h
    cases h
    refine ⟨rfl, ?_⟩
    unfold Clock.withQuantity? at hl
    split at hl
    · exact List.forall_mem_singleton.mpr (isPlain_referenceLine? (mapError_eq_ok_iff.mp hl))
    · cases hl

theorem skippedLines_of_ne_nil {ds : List Diagnostic} (h : ds ≠ []) :
    skippedLines ds =
      "" :: s!"Skipped lines ({ds.length})" :: ds.map fun d => s!"  {d.describe}" := by
  cases ds with
  | nil => exact absurd rfl h
  | cons d ds => rfl

theorem length_skippedLines (ds : List Diagnostic) :
    (skippedLines ds).length = if 0 < ds.length then ds.length + 2 else 0 := by
  cases ds with
  | nil => rfl
  | cons d ds => simp [skippedLines]

theorem length_countLines (points : Option Int) :
    (countLines p points).length = 5 + points.toList.length := by
  cases points with
  | none => rfl
  | some n => rfl

end Parts

/-- The parts of a report, one after the other, and what it is to be one of its lines. -/
theorem pieces_render? [Host] {p : Program Float} {c : Calculation} {reference : Option Value}
    {points : Option Int} {report : String} (hplain : ∀ d ∈ p.diagnostics, IsPlain d.message.toList)
    (h : render? p c reference points = .ok report) :
    ∃ times comparison, times.length = 4 ∧ comparison.length = reference.toList.length ∧
      pieces report = (countLines p points ++ [""] ++ measureLines p ++ [""] ++ times ++ comparison ++
        skippedLines p.diagnostics).map String.toList ∧
      ∀ piece ∈ pieces report, IsPlain piece := by
  obtain ⟨ls, hls, rfl⟩ := map_eq_ok_iff.mp h
  obtain ⟨times, htimes, hls⟩ := bind_eq_ok_iff.mp hls
  obtain ⟨comparison, hcomparison, hls⟩ := bind_eq_ok_iff.mp hls
  cases hls
  obtain ⟨hlength, hplainTimes⟩ := timeLines?_eq_ok (mapError_eq_ok_iff.mp htimes)
  obtain ⟨hlength', hplainComparison⟩ := comparison_eq_ok hcomparison
  have hall : ∀ l ∈ countLines p points ++ [""] ++ measureLines p ++ [""] ++ times ++ comparison ++
      skippedLines p.diagnostics, IsPlain l.toList := by
    simp only [List.forall_mem_append, List.forall_mem_singleton]
    exact ⟨⟨⟨⟨⟨⟨isPlain_countLines points, .nil⟩, isPlain_measureLines⟩, .nil⟩, hplainTimes⟩,
      hplainComparison⟩, isPlain_skippedLines hplain⟩
  have hpieces := pieces_intercalate (by simp [countLines]) fun l hl => (hall l hl).newline_not_mem
  refine ⟨times, comparison, hlength, hlength', hpieces, ?_⟩
  rw [hpieces]
  exact List.forall_mem_map.mpr hall

/-- A report has a fixed number of lines, one more for the replay, one more for the comparison and,
if lines were skipped, one for each of them behind two more. The replay stands behind the pierces,
the skipped lines stand at the end in their order, and no character of any line breaks it. -/
theorem pieces_render?_parse [Host] (text : String) (c : Calculation) (reference : Option Value)
    (points : Option Int) (report : String)
    (h : render? (.parse text) c reference points = .ok report) :
    let p : Program Float := .parse text
    let d := p.diagnostics.length
    (pieces report).length = 16 + (if points.isSome then 1 else 0) +
        (if reference.isSome then 1 else 0) + (if 0 < d then d + 2 else 0) ∧
      (pieces report)[4]? = some (s!"  Pierce points:      {p.pierces}").toList ∧
      (∀ n, points = some n →
        (pieces report)[5]? = some (s!"  Replay points:      {written n}").toList) ∧
      (0 < d → ∃ front, pieces report = front ++
        ([] :: (s!"Skipped lines ({d})").toList ::
          p.diagnostics.map fun e => (s!"  Line {written e.line}: {e.message}").toList)) ∧
      (∀ piece ∈ pieces report, ∀ ch ∈ piece, isPrintable ch = true ∧ breaksLine ch = false) := by
  intro p d
  obtain ⟨times, comparison, htimes, hcomparison, hpieces, hplain⟩ :=
    pieces_render? (p := p) (fun _ hd => Program.isPlain_message hd) h
  refine ⟨?_, ?_, ?_, ?_, ?_⟩
  · have hmeasures : (measureLines p).length = 5 := rfl
    rw [hpieces, List.length_map]
    simp only [List.length_append, List.length_singleton, length_countLines, hmeasures, htimes,
      hcomparison, length_skippedLines, Option.length_toList]
    change _ = _ + (if 0 < p.diagnostics.length then p.diagnostics.length + 2 else 0)
    omega
  · rw [hpieces]
    rfl
  · rintro n rfl
    rw [hpieces]
    rfl
  · intro hd
    have hskipped : (skippedLines p.diagnostics).map String.toList =
        [] :: (s!"Skipped lines ({d})").toList ::
          p.diagnostics.map fun e => (s!"  Line {written e.line}: {e.message}").toList := by
      rw [skippedLines_of_ne_nil (List.ne_nil_of_length_pos hd), List.map_cons, List.map_cons,
        List.map_map]
      refine congrArg _ (congrArg _ (List.map_congr_left fun e _ => ?_))
      simp [Diagnostic.describe, toString]
    rw [hpieces, List.map_append, hskipped]
    exact ⟨_, rfl⟩
  · intro piece hpiece ch hch
    have hprintable := hplain piece hpiece ch hch
    exact ⟨hprintable, breaksLine_of_isPrintable hprintable⟩

/-- Words with a line separator, a next-line control, a zero-width space and a quote in them. -/
theorem pieces_render?_hostile :
    letI : Host := .standard
    let text := "G01 X1\u2028Y\u200b'\nG01 X1 F10\n\x0bG99\x85X\x1c\\\x7f\r\n"
    let c : Calculation := ⟨⟨.integer 1, .double 0.5, .double 1, .double 10⟩,
      ⟨.double 0.5, .double 0.1, .double 0.6⟩⟩
    ∃ report, render? (.parse text) c (some (.double 2)) (some 4) = .ok report ∧
      (pieces report).length = 22 ∧
      (pieces report)[5]? = some "  Replay points:      4".toList ∧
      ∃ front, pieces report = front ++ [[], "Skipped lines (2)".toList,
        "  Line 1: Field Error at L1, Y: Expected number (\x22Y\\u200b'\x22)".toList,
        "  Line 3: Field Error at L3, X: Expected number ('X')".toList] := by
  let host : Host := .standard
  intro text c
  have hreturns : (render? (.parse text) c (some (.double 2)) (some 4)).toBool = true := by
    decide +kernel
  have hdiagnostics : (Program.parse text : Program Float).diagnostics =
      [⟨1, "G01 X1\u2028Y\u200b'", "Field Error at L1, Y: Expected number (\x22Y\\u200b'\x22)"⟩,
        ⟨3, "G99\x85X\x1c\\\x7f", "Field Error at L3, X: Expected number ('X')"⟩] := by
    decide +kernel
  obtain ⟨report, h⟩ := exists_eq_ok_of_toBool hreturns
  obtain ⟨hcount, -, hreplay, hskipped, -⟩ :=
    pieces_render?_parse text c (some (.double 2)) (some 4) report h
  rw [hdiagnostics] at hcount hskipped
  exact ⟨report, h, hcount, hreplay 4 rfl, hskipped two_pos⟩

end Report

end Waterjet
