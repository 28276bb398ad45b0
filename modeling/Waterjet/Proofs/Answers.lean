import Waterjet.Host.Standard
import Waterjet.Proofs.Appending
import Waterjet.Proofs.Endings
import Waterjet.Proofs.Printing

/-! The answer of a run that ends with a status. The settings, the program and the estimate are
tried in this order, and the first that is refused is answered with one message behind the log and
with nothing on the standard output. Where none is refused the standard output is the report. A line
that was skipped comes up twice, in the log and in the report, each time as one line of text and in
the same words. -/
namespace Waterjet
open Number Nc

namespace Diagnostic

/-- What is said of a skipped line wherever it comes up. -/
def note (d : Diagnostic) : String := s!"{written d.line}: {d.message}"

theorem isPlain_note {d : Diagnostic} (h : Text.IsPlain d.message.toList) :
    Text.IsPlain d.note.toList := by
  simp [note, toString, h, isPlain_written, Text.isPrintable_of_ascii]

end Diagnostic

theorem Program.newline_not_mem_note {α : Type} [Scalar α] {text : String} {d : Diagnostic}
    (h : d ∈ (parse text : Program α).diagnostics) : '\n' ∉ d.note.toList :=
  (Diagnostic.isPlain_note (isPlain_message h)).newline_not_mem

namespace Report

/-- The end of a report: what it says of the lines that were skipped. -/
def skippedSection (ds : List Diagnostic) : List String :=
  if ds = [] then []
  else "" :: s!"Skipped lines ({ds.length})" :: ds.map fun d => "  Line " ++ d.note

theorem skippedLines_eq (ds : List Diagnostic) : skippedLines ds = skippedSection ds := by
  cases ds with
  | nil => rfl
  | cons d ds => rfl

end Report

namespace Text

/-- Lines as a text, each of them ended. -/
def ended (ls : List String) : String := String.join (ls.map (· ++ "\n"))

theorem ended_append (ls others : List String) : ended (ls ++ others) = ended ls ++ ended others := by
  rw [ended, List.map_append, String.join_append]
  rfl

theorem intercalate_eq_ended {ls : List String} (h : ls ≠ []) :
    "\n".intercalate ls ++ "\n" = ended ls := by
  induction ls with
  | nil => exact absurd rfl h
  | cons l ls ih =>
    have hcons : ended (l :: ls) = l ++ "\n" ++ ended ls := by
      rw [ended, List.map_cons, String.join_cons]
      rfl
    cases ls with
    | nil =>
      rw [String.intercalate_singleton, hcons]
      exact String.append_empty.symm
    | cons next ls =>
      rw [String.intercalate_cons_cons, String.append_assoc, ih (List.cons_ne_nil next ls), hcons]

theorem toList_ended (ls : List String) :
    (ended ls).toList = (ls.map String.toList).flatMap fun l => l ++ ['\n'] := by
  rw [ended, String.toList_join, List.flatMap_map, List.flatMap_map]
  simp

/-- Lines that are each ended are read back one by one. -/
theorem physicalLines_ended {ls : List String} (h : ∀ l ∈ ls, '\n' ∉ l.toList) :
    physicalLines (ended ls).toList = ls.map String.toList := by
  rw [toList_ended]
  induction ls with
  | nil => rfl
  | cons l ls ih =>
    rw [List.map_cons, List.flatMap_cons, List.append_assoc, List.singleton_append,
      physicalLines_append_cons (h l List.mem_cons_self),
      ih fun l' hl' => h l' (List.mem_cons_of_mem l hl')]

/-- Whatever stands before them, if that is ended too. -/
theorem physicalLines_append_ended (front : List String) {ls : List String}
    (h : ∀ l ∈ ls, '\n' ∉ l.toList) :
    physicalLines (ended (front ++ ls)).toList =
      physicalLines (ended front).toList ++ ls.map String.toList := by
  have hfront : (ended front).toList = [] ∨ (ended front).toList.getLast? = some '\n' := by
    rw [toList_ended]
    rcases List.eq_nil_or_concat front with rfl | ⟨front, last, rfl⟩
    · exact .inl rfl
    · exact .inr (by simp [← List.append_assoc])
  rw [ended_append, String.toList_append, physicalLines_append hfront, physicalLines_ended h]

end Text

namespace Report

theorem newline_not_mem_skippedSection {ds : List Diagnostic}
    (h : ∀ d ∈ ds, '\n' ∉ d.note.toList) : ∀ l ∈ skippedSection ds, '\n' ∉ l.toList := by
  have hcount : '\n' ∉ (s!"Skipped lines ({ds.length})").toList := by
    simp [toString, (Text.isPlain_toDigits ds.length).newline_not_mem]
  unfold skippedSection
  split
  · exact nofun
  · rw [List.forall_mem_cons, List.forall_mem_cons, List.forall_mem_map]
    refine ⟨by decide, hcount, ?_⟩
    intro d hd
    simpa using h d hd

/-- A report ends with its account of skipped lines. -/
theorem exists_render?_eq [Host] {p : Program Float} {c : Calculation} {reference : Option Value}
    {points : Option Int} {report : String} (h : render? p c reference points = .ok report) :
    ∃ front, report ++ "\n" = Text.ended (front ++ skippedSection p.diagnostics) := by
  obtain ⟨ls, hls, rfl⟩ := map_eq_ok_iff.mp h
  obtain ⟨times, -, hls⟩ := bind_eq_ok_iff.mp hls
  obtain ⟨comparison, -, hls⟩ := bind_eq_ok_iff.mp hls
  cases hls
  refine ⟨countLines p points ++ [""] ++ measureLines p ++ [""] ++ times ++ comparison, ?_⟩
  rw [← skippedLines_eq]
  exact Text.intercalate_eq_ended (by simp [countLines])

end Report

namespace Cli

/-- What a run writes to the log of its warnings about a program. -/
def warnings (p : Program Float) : List String :=
  p.diagnostics.map fun d => "WARNING jetsim.core.parser: Skipping line " ++ d.note

/-- Without further notice only the warnings are shown. -/
theorem logText_programLog (p : Program Float) {before after : List LogEntry}
    (hbefore : ∀ e ∈ before, e.level ≠ .warning) (hafter : ∀ e ∈ after, e.level ≠ .warning) :
    logText false (before ++ programLog p ++ after) = Text.ended (warnings p) := by
  have hnone {log : List LogEntry} (h : ∀ e ∈ log, e.level ≠ .warning) :
      log.filter (·.isShown false) = [] := by
    simpa [LogEntry.isShown] using h
  have hall : (p.diagnostics.map warningOf).filter (·.isShown false) =
      p.diagnostics.map warningOf := by
    simp [LogEntry.isShown, warningOf]
  have hsummary : [(⟨.debug, .reader, programSummary p⟩ : LogEntry)].filter (·.isShown false) = [] :=
    rfl
  unfold logText programLog
  rw [List.filter_append, List.filter_append, List.filter_append, hnone hbefore, hnone hafter, hall,
    hsummary, List.nil_append, List.append_nil, List.append_nil, Text.ended, warnings, List.map_map,
    List.map_map]
  refine congrArg String.join (List.map_congr_left fun d _ => ?_)
  have hline : (warningOf d).line =
      "WARNING jetsim.core.parser: " ++ ("Skipping line " ++ d.note) ++ "\n" := by
    simp [LogEntry.line, warningOf, Level.name, Speaker.name, Diagnostic.note, String.append_assoc,
      toString]
  rw [Function.comp_apply, Function.comp_apply, hline, ← String.append_assoc]
  rfl

/-- An answer with one message of an error behind the log, and nothing else. -/
structure Outcome.Refuses (o : Outcome) (code : Nat) (verbose : Bool) (log : List LogEntry)
    (reason : String) : Prop where
  ending : o.ending = .status code
  stdout : o.stdout = ""
  stderr : o.stderr = logText verbose log ++ ("error: " ++ reason ++ "\n")

section Run

variable [Host]

/-- An answer with the report of a program, and with the same notes on skipped lines in the report
and in the log. -/
structure Outcome.Reports (o : Outcome) (r : Request) (c : Config.Loaded) (p : Program Float)
    (calculation : Calculation) : Prop where
  ending : o.ending = .status 0
  report : ∃ points report, polyline? p.moves c.arcSamples true = .ok points ∧
    Report.render? p calculation r.reference (some (points.length : Int)) = .ok report ∧
    o.stdout = report ++ "\n"
  listed : ∃ front, Text.physicalLines o.stdout.toList =
    front ++ (Report.skippedSection p.diagnostics).map String.toList
  warned : r.verbose = false →
    Text.physicalLines o.stderr.toList = (warnings p).map String.toList

/-- What a run can answer: the first refusal, or else the report. -/
inductive Answered (r : Request) (configFile programFile : FileState) (o : Outcome) : Prop
  | settings {path : String} {bytes : List UInt8} {f : LoadFault} (asked : r.config = some path)
      (named : path ≠ "") (held : configFile = .contents bytes)
      (refused : Config.load? bytes = .error f) (reported : isReported f = true)
      (answer : o.Refuses 2 r.verbose [] (f.message (plainName path)))
  | program {c : Config.Loaded} {log : List LogEntry}
      (loaded : settings? r.config configFile = .ok (c, log))
      (unread : ∀ bytes, programFile ≠ .contents bytes)
      (answer : o.Refuses 1 r.verbose log
        s!"cannot read {r.path}: {programFile.refusal r.path}")
  | estimate {c : Config.Loaded} {log : List LogEntry} {bytes : List UInt8} {i : InvalidInput}
      (loaded : settings? r.config configFile = .ok (c, log))
      (read : programFile = .contents bytes)
      (refused : (Program.parseBytes bytes).estimate? c.given r.pierceTime r.speed =
        .error (.invalid i))
      (answer : o.Refuses 2 r.verbose (log ++ programLog (.parseBytes bytes)) i.message)
  | report {c : Config.Loaded} {log : List LogEntry} {bytes : List UInt8}
      {calculation : Calculation} (loaded : settings? r.config configFile = .ok (c, log))
      (read : programFile = .contents bytes)
      (estimated : (Program.parseBytes bytes).estimate? c.given r.pierceTime r.speed =
        .ok calculation)
      (answer : o.Reports r c (.parseBytes bytes) calculation)

/-- Settings that give a log give no warning. -/
theorem level_ne_of_settings? {config : Option String} {file : FileState} {c : Config.Loaded}
    {log : List LogEntry} (h : settings? config file = .ok (c, log)) :
    ∀ e ∈ log, e.level ≠ .warning := by
  have hmissing (name : String) : ∀ e ∈ [missingConfigEntry name], e.level ≠ .warning := by
    simp [missingConfigEntry]
  unfold settings? at h
  split at h
  · cases h
    exact nofun
  · next path =>
    split at h
    · cases h
      exact nofun
    · cases file with
      | contents bytes =>
        unfold fileSettings? at h
        dsimp only at h
        split at h
        · cases h
          exact nofun
        · cases h
      | directory | nameTooLong => cases h
      | unreadable code reason =>
        unfold fileSettings? at h
        dsimp only at h
        split at h <;> cases h
        exact hmissing _
      | missing | underFile | nullInName =>
        cases h
        exact hmissing _

theorem length_polyline? {moves : List (Move Float)} {samples : Int} {n : Nat}
    (h : replayLength? moves samples = .ok n) :
    ∃ points, polyline? moves samples true = .ok points ∧ points.length = n := by
  unfold replayLength? at h
  unfold polyline?
  split at h
  · next hempty =>
    cases h
    exact ⟨[], if_pos hempty, rfl⟩
  · next hempty =>
    obtain ⟨count, hcount, rfl⟩ := map_eq_ok_iff.mp h
    rw [if_neg hempty, hcount]
    exact ⟨_, rfl, length_polyline moves count true⟩

/-- Of the refusals of settings only those with a message are answers. -/
theorem settings?_refused {config : Option String} {file : FileState} {stop : Stop}
    (h : settings? config file = .error stop) (hstop : ∀ f, stop ≠ .failure f) :
    ∃ path bytes f, config = some path ∧ path ≠ "" ∧ file = .contents bytes ∧
      Config.load? bytes = .error f ∧ isReported f = true ∧
      stop = .exit 2 (f.message (plainName path)) := by
  unfold settings? at h
  split at h
  · cases h
  · next path =>
    split at h
    · cases h
    · next hnamed =>
      have hne : path ≠ "" := mt String.isEmpty_iff.mpr hnamed
      cases file with
      | contents bytes =>
        unfold fileSettings? at h
        dsimp only at h
        split at h
        · cases h
        · next f hload =>
          cases h
          cases f with
          | unreadable | notObject | badValue | refused =>
            exact ⟨path, bytes, _, rfl, hne, rfl, hload, rfl, rfl⟩
          | undecodable | tooManyDigits | tooDeep | outOfRange => exact absurd rfl (hstop _)
      | directory | nameTooLong =>
        cases h
        exact absurd rfl (hstop _)
      | unreadable code reason =>
        unfold fileSettings? at h
        dsimp only at h
        split at h <;> cases h
        exact absurd rfl (hstop _)
      | missing | underFile | nullInName => cases h

omit [Host] in
theorem refuses_finish (verbose : Bool) (log : List LogEntry) (code : Nat) (reason : String) :
    (finish verbose log (.error (.exit code reason))).Refuses code verbose log reason := by
  refine ⟨rfl, rfl, ?_⟩
  simp [finish, toString]

section Program

variable {r : Request} {c : Config.Loaded} {log : List LogEntry} {p : Program Float}
  {calculation : Calculation}

/-- A report is written only once nothing more can be refused. -/
theorem reports_finish (hlog : ∀ e ∈ log, e.level ≠ .warning)
    (hnotes : ∀ d ∈ p.diagnostics, '\n' ∉ d.note.toList) {entry : LogEntry}
    (hentry : entry.level ≠ .warning) {report : String}
    (h : report? r c p calculation = .ok report) :
    (finish r.verbose (log ++ programLog p ++ [entry]) (.ok report)).Reports r c p
      calculation := by
  obtain ⟨n, hn, hreport⟩ := bind_eq_ok_iff.mp h
  have hreport := mapError_eq_ok_iff.mp hreport
  obtain ⟨points, hpoints, rfl⟩ := length_polyline? (mapError_eq_ok_iff.mp hn)
  constructor
  · rfl
  · exact ⟨points, report, hpoints, hreport, rfl⟩
  · obtain ⟨front, hfront⟩ := Report.exists_render?_eq hreport
    refine ⟨Text.physicalLines (Text.ended front).toList, ?_⟩
    change Text.physicalLines (report ++ "\n").toList = _
    rw [hfront]
    exact Text.physicalLines_append_ended front (Report.newline_not_mem_skippedSection hnotes)
  · intro hquiet
    have hlines : ∀ l ∈ warnings p, '\n' ∉ l.toList := by
      intro l hl
      obtain ⟨d, hd, rfl⟩ := List.mem_map.mp hl
      simpa using hnotes d hd
    change Text.physicalLines (logText r.verbose _).toList = _
    rw [hquiet, logText_programLog p hlog (by simpa using hentry), Text.physicalLines_ended hlines]

omit [Host] in
theorem level_ne_of_estimateEntry {entry : LogEntry} (h : estimateEntry? p calculation = .ok entry) :
    entry.level ≠ .warning := by
  obtain ⟨total, -, h⟩ := bind_eq_ok_iff.mp h
  obtain ⟨time, -, h⟩ := bind_eq_ok_iff.mp h
  obtain ⟨speed, -, h⟩ := bind_eq_ok_iff.mp h
  cases h
  nofun

/-- A program that has been read is refused for its estimate or for nothing. -/
theorem respondTo_cases (hlog : ∀ e ∈ log, e.level ≠ .warning)
    (hnotes : ∀ d ∈ p.diagnostics, '\n' ∉ d.note.toList)
    (h : ∀ f, (respondTo r c log p).ending ≠ .failure f) :
    (∃ i, p.estimate? c.given r.pierceTime r.speed = .error (.invalid i) ∧
      (respondTo r c log p).Refuses 2 r.verbose (log ++ programLog p) i.message) ∨
    (∃ calculation, p.estimate? c.given r.pierceTime r.speed = .ok calculation ∧
      (respondTo r c log p).Reports r c p calculation) := by
  unfold respondTo at h ⊢
  dsimp only at h ⊢
  cases hestimate : p.estimate? c.given r.pierceTime r.speed with
  | error f =>
    have hstop : estimate? r c p = .error (.ofEstimateFault f) := by
      rw [estimate?, hestimate]
      rfl
    rw [hstop] at h ⊢
    cases f with
    | invalid i => exact .inl ⟨i, rfl, refuses_finish ..⟩
    | arithmetic f => exact absurd rfl (h _)
  | ok calculation =>
    have hgood : estimate? r c p = .ok calculation := by
      rw [estimate?, hestimate]
      rfl
    rw [hgood] at h ⊢
    dsimp only at h ⊢
    refine .inr ⟨calculation, rfl, ?_⟩
    cases hentry : estimateEntry? p calculation with
    | error f =>
      rw [hentry] at h
      exact absurd rfl (h _)
    | ok entry =>
      rw [hentry] at h
      dsimp only at h ⊢
      cases hreport : report? r c p calculation with
      | error stop =>
        obtain ⟨f, rfl⟩ := exists_failure_of_report? hreport
        rw [hreport] at h
        exact absurd rfl (h f)
      | ok report => exact reports_finish hlog hnotes (level_ne_of_estimateEntry hentry) hreport

end Program

/-- A run that does not fail is answered by the first of its stages that refuses, or else by the
report; and the report and the log agree on the lines that were skipped. -/
theorem respond_answered (r : Request) (configFile programFile : FileState)
    (h : ∀ f, (respond r configFile programFile).ending ≠ .failure f) :
    Answered r configFile programFile (respond r configFile programFile) := by
  unfold respond at h ⊢
  cases hsettings : settings? r.config configFile with
  | error stop =>
    rw [hsettings] at h
    have hstop (f : Failure) : stop ≠ .failure f := by
      rintro rfl
      exact h f rfl
    obtain ⟨path, bytes, f, hasked, hnamed, hheld, hload, hreported, rfl⟩ :=
      settings?_refused hsettings hstop
    exact .settings hasked hnamed hheld hload hreported (refuses_finish ..)
  | ok loaded =>
    obtain ⟨c, log⟩ := loaded
    rw [hsettings] at h
    dsimp only at h ⊢
    cases programFile with
    | contents bytes =>
      have hnotes (d : Diagnostic) (hd : d ∈ (Program.parseBytes bytes : Program Float).diagnostics) :
          '\n' ∉ d.note.toList := Program.newline_not_mem_note hd
      obtain ⟨i, hi, hanswer⟩ | ⟨calculation, hcalculation, hanswer⟩ :=
        respondTo_cases (level_ne_of_settings? hsettings) hnotes h
      · exact .estimate hsettings rfl hi hanswer
      · exact .report hsettings rfl hcalculation hanswer
    | nullInName => exact absurd rfl (h _)
    | missing | directory | underFile | nameTooLong | unreadable =>
      exact .program hsettings nofun (refuses_finish ..)

end Run

/-- Two malformed lines, one of them with a word that is quoted the other way. -/
theorem respond_answered_skipping :
    letI : Host := .standard
    let r : Request := ⟨"part.nc", none, none, none, none, false⟩
    let bytes := "G01 X1 F10\nG01 X'1 Y1\n(note)\nF\x0b1 G00\n".toUTF8.toList
    Request.ofArguments? ["part.nc"] = .ok r ∧
      (∀ f, (respond r .missing (.contents bytes)).ending ≠ .failure f) ∧
      Answered r .missing (.contents bytes) (respond r .missing (.contents bytes)) ∧
      (respond r .missing (.contents bytes)).stderr =
        "WARNING jetsim.core.parser: Skipping line 2: " ++
          "Field Error at L2, X: Expected number (\x22X'1\x22)\n" ++
        "WARNING jetsim.core.parser: Skipping line 4: " ++
          "Field Error at L4, F: Expected number ('F')\n" := by
  let host : Host := .standard
  intro r bytes
  have hstatus : (respond r .missing (.contents bytes)).ending.isStatus = true := by
    decide +kernel
  have hends (f : Failure) : (respond r .missing (.contents bytes)).ending ≠ .failure f := by
    intro hf
    rw [hf] at hstatus
    cases hstatus
  exact ⟨rfl, hends, respond_answered r .missing (.contents bytes) hends, by decide +kernel⟩

end Cli

end Waterjet
