import Waterjet.Cli.Outcome
import Waterjet.Host.Standard
import Waterjet.Proofs.Arguments

/-! How runs end. A run ends with a status unless a failure escapes it, and there are few places
where one can: the configuration, a name that is no name, the count of seconds of a time that has
been accepted, and the room for the points of a replay. -/
namespace Waterjet
open Number

namespace Config

/-- The number of samples is checked last. -/
theorem two_le_of_check {c : Loaded} {u : Unit} (h : check c.given = .ok u) :
    2 ≤ c.arcSamples := by
  have hsamples (v : Unit) (hv : (Value.integer c.arcSamples).forbid "<" (Quantity.isBelow 2)
      (.tooFew .arcSamples (.integer c.arcSamples)) = .ok v) : 2 ≤ c.arcSamples := by
    by_contra hlt
    have hbelow : Quantity.isBelow 2 (.integer c.arcSamples) = true :=
      decide_eq_true (by omega)
    have herror := (if_pos hbelow).symm.trans hv
    cases herror
  obtain ⟨_, -, h⟩ := bind_eq_ok_iff.mp h
  obtain ⟨_, -, h⟩ := bind_eq_ok_iff.mp h
  obtain ⟨pierceTime, fallbackSpeed, speedOverride, arcSamples⟩ := c
  cases speedOverride with
  | none => exact hsamples _ h
  | some v =>
    obtain ⟨_, -, h⟩ := bind_eq_ok_iff.mp h
    exact hsamples _ h

section Loaded

variable [Host]

/-- Settings that a file gives have passed their check. -/
theorem check_of_load? {bytes : List UInt8} {c : Loaded} (h : load? bytes = .ok c) :
    check c.given = .ok () := by
  obtain ⟨text, -, h⟩ := bind_eq_ok_iff.mp h
  obtain ⟨json, -, h⟩ := bind_eq_ok_iff.mp h
  cases json with
  | object members =>
    obtain ⟨time, -, h⟩ := bind_eq_ok_iff.mp h
    obtain ⟨fallback, -, h⟩ := bind_eq_ok_iff.mp h
    obtain ⟨override, -, h⟩ := bind_eq_ok_iff.mp h
    obtain ⟨samples, -, h⟩ := bind_eq_ok_iff.mp h
    obtain ⟨_, hcheck, h⟩ := bind_eq_ok_iff.mp h
    cases h
    exact mapError_eq_ok_iff.mp hcheck
  | _ => cases h

theorem two_le_of_load? {bytes : List UInt8} {c : Loaded} (h : load? bytes = .ok c) :
    2 ≤ c.arcSamples := two_le_of_check (check_of_load? h)

end Loaded

end Config

end Waterjet

namespace Waterjet.Cli
open Number

/-- A status of the command's own: zero, one or two. -/
def Ending.isStatus : Ending → Bool
  | .status code => code ≤ 2
  | .failure _ => false

/-- A stop that is answered with a message and a status. -/
def Stop.isExit : Stop → Bool
  | .exit code _ => code ≤ 2
  | .failure _ => false

/-- The refusals of a configuration that have a message. -/
def isReported : LoadFault → Bool
  | .unreadable _ _ => true
  | .notObject => true
  | .badValue _ => true
  | .refused _ => true
  | _ => false

section Conditions

variable [Host]

/-- A file that gives settings or is refused with a message. One that is not there gives the
settings by default. -/
def FileAnswered : FileState → Prop
  | .contents bytes => ∀ f, Config.load? bytes = .error f → isReported f = true
  | .directory => False
  | .nameTooLong => False
  | .unreadable code _ => code = loopCode
  | _ => True

/-- The same for the configuration, if one is asked for. -/
def ConfigAnswered (config : Option String) (file : FileState) : Prop :=
  ∀ path, config = some path → path ≠ "" → FileAnswered file

/-- What it takes to report an estimate that has been accepted. -/
structure Reportable (r : Request) (c : Config.Loaded) (p : Program Float) : Prop where
  count : ∃ k, doubleOfInt? p.pierces = .ok k
  total : ∀ calculation, estimate? r c p = .ok calculation →
    ∃ x, calculation.breakdown.total = .double x ∧ Clock.isCountable x = true
  reference : ∀ v, r.reference = some v → ∃ x, v = .double x ∧ Clock.isCountable x = true
  room : p.moves ≠ [] →
    ∀ count : SampleCount, (count.val : Int) = c.arcSamples → HasRoom p.moves count true

end Conditions

section Finish

variable (verbose : Bool) (log : List LogEntry)

@[simp] theorem isStatus_finish_ok (report : String) :
    (finish verbose log (.ok report)).ending.isStatus = true := rfl

@[simp] theorem isStatus_finish_error (stop : Stop) :
    (finish verbose log (.error stop)).ending.isStatus = stop.isExit := by
  cases stop <;> rfl

theorem isStatus_finish (x : Except Stop String)
    (h : ∀ stop, x = .error stop → stop.isExit = false) :
    (finish verbose log x).ending.isStatus = true ↔ ∃ report, x = .ok report := by
  cases x with
  | ok report => simp
  | error stop => simp [h stop rfl]

end Finish

theorem isExit_ofLoadFault (path : String) (f : LoadFault) :
    (Stop.ofLoadFault path f).isExit = isReported f := by
  cases f <;> rfl

section Settings

variable [Host]

/-- All that a file of settings can do. -/
theorem fileSettings?_cases (path : String) (file : FileState) :
    (∃ c log, fileSettings? path file = .ok (c, log) ∧ FileAnswered file ∧ 2 ≤ c.arcSamples) ∨
    (∃ stop, fileSettings? path file = .error stop ∧
      (stop.isExit = true ↔ FileAnswered file)) := by
  have hdefault : 2 ≤ Config.default.arcSamples := by decide
  cases file with
  | contents bytes =>
    unfold fileSettings? FileAnswered
    dsimp only
    cases hload : Config.load? bytes with
    | ok c => exact .inl ⟨c, [], rfl, nofun, Config.two_le_of_load? hload⟩
    | error f =>
      refine .inr ⟨.ofLoadFault path f, rfl, ?_⟩
      rw [isExit_ofLoadFault]
      constructor
      · intro h f' hf'
        rwa [← Except.error.inj hf']
      · exact fun h => h f rfl
  | directory | nameTooLong => exact .inr ⟨_, rfl, nofun, nofun⟩
  | unreadable code reason =>
    by_cases hloop : code = loopCode
    · exact .inl ⟨_, _, if_pos hloop, hloop, hdefault⟩
    · exact .inr ⟨_, if_neg hloop, nofun, fun h => absurd h hloop⟩
  | missing | underFile | nullInName => exact .inl ⟨_, _, rfl, trivial, hdefault⟩

/-- All that the configuration can do. -/
theorem settings?_cases (config : Option String) (file : FileState) :
    (∃ c log, settings? config file = .ok (c, log) ∧ ConfigAnswered config file ∧
      2 ≤ c.arcSamples) ∨
    (∃ stop, settings? config file = .error stop ∧
      (stop.isExit = true ↔ ConfigAnswered config file)) := by
  have hdefault : 2 ≤ Config.default.arcSamples := by decide
  cases config with
  | none => exact .inl ⟨.default, [], rfl, nofun, hdefault⟩
  | some path =>
    by_cases hempty : path = ""
    · have hanswered : ConfigAnswered (some path) file := by
        intro _ heq hne
        exact absurd (Option.some.inj heq ▸ hempty) hne
      exact .inl ⟨.default, [], if_pos (String.isEmpty_iff.mpr hempty), hanswered, hdefault⟩
    · have hfile : settings? (some path) file = fileSettings? path file :=
        if_neg (mt String.isEmpty_iff.mp hempty)
      have hanswered : ConfigAnswered (some path) file ↔ FileAnswered file :=
        ⟨fun h => h path rfl hempty, fun h _ _ _ => h⟩
      rw [hanswered, hfile]
      exact fileSettings?_cases path file

end Settings

theorem exists_double_of_isOption {q : Quantity} (h : IsOption (.number q)) :
    ∃ x, q = .double x := by
  obtain h | ⟨x, h⟩ := h
  · cases h
  · exact ⟨x, Value.number.inj h⟩

section Estimate

variable {r : Request} (hr : r.Typed) (c : Config.Loaded) (p : Program Float)
include hr

theorem isOption_pierceTime : IsOption (p.inputs c.given r.pierceTime r.speed).pierceTime := by
  change IsOption (r.pierceTime.getD (.double c.pierceTime))
  cases h : r.pierceTime with
  | none => exact .inr ⟨c.pierceTime, rfl⟩
  | some v => exact hr.pierceTime v h

theorem isOption_speed : IsOption (p.inputs c.given r.pierceTime r.speed).speed := by
  change IsOption (r.speed.getD (p.impliedSpeed c.given))
  cases h : r.speed with
  | some v => exact hr.speed v h
  | none =>
    unfold Program.impliedSpeed
    obtain ⟨pierceTime, fallbackSpeed, speedOverride, arcSamples⟩ := c
    cases speedOverride with
    | some x => exact .inr ⟨x, rfl⟩
    | none =>
      change IsOption (if p.feedSamples = 0 then .double fallbackSpeed else .double p.averageSpeed)
      split
      · exact .inr ⟨fallbackSpeed, rfl⟩
      · exact .inr ⟨p.averageSpeed, rfl⟩

/-- All that an estimate can do. -/
theorem estimate?_cases :
    (∃ i, (p.inputs c.given r.pierceTime r.speed).validate? = .error i ∧
      estimate? r c p = .error (.exit 2 i.message)) ∨
    ∃ q, (p.inputs c.given r.pierceTime r.speed).validate? = .ok q ∧
      ((∃ f, doubleOfInt? p.pierces = .error f ∧
        estimate? r c p = .error (.failure (.arithmetic f))) ∨
      ∃ k time speed, doubleOfInt? p.pierces = .ok k ∧
        estimate? r c p = .ok (.ofDoubles p.pierces k time p.cuttingLength speed)) := by
  cases hvalid : (p.inputs c.given r.pierceTime r.speed).validate? with
  | error i =>
    refine .inl ⟨i, rfl, ?_⟩
    unfold estimate? Program.estimate? Calculation.make?
    rw [hvalid]
    rfl
  | ok q =>
    refine .inr ⟨q, rfl, ?_⟩
    -- What has passed are numbers, so none of the options was a bare separator.
    obtain ⟨hinputs, -⟩ := Inputs.of_validate? hvalid
    have htime := isOption_pierceTime hr c p
    have hspeed := isOption_speed hr c p
    rw [hinputs] at htime hspeed
    obtain ⟨time, htime⟩ := exists_double_of_isOption htime
    obtain ⟨speed, hspeed⟩ := exists_double_of_isOption hspeed
    have hcount : q.pierceCount = .integer p.pierces :=
      (Value.number.inj (congrArg Inputs.pierceCount hinputs)).symm
    have hlength : q.perimeter = .double p.cuttingLength :=
      (Value.number.inj (congrArg Inputs.perimeter hinputs)).symm
    have hq : q = ⟨.integer p.pierces, .double time, .double p.cuttingLength, .double speed⟩ := by
      rw [← hcount, ← htime, ← hlength, ← hspeed]
    rw [hq] at hvalid
    unfold estimate? Program.estimate?
    rw [Calculation.make?_of_doubles hvalid]
    cases doubleOfInt? p.pierces with
    | error f => exact .inl ⟨f, rfl, rfl⟩
    | ok k => exact .inr ⟨k, time, speed, rfl, rfl⟩

end Estimate

theorem exists_estimateEntry? (p : Program Float) (n : Int) (k time length speed : Float) :
    ∃ entry, estimateEntry? p (.ofDoubles n k time length speed) = .ok entry := ⟨_, rfl⟩

section Run

variable [Host]

/-- A replay is counted if there is room for it. -/
theorem exists_replayLength?_iff {moves : List (Move Float)} {samples : Int} (h : 2 ≤ samples) :
    (∃ n, replayLength? moves samples = .ok n) ↔ (moves ≠ [] →
      ∀ count : SampleCount, (count.val : Int) = samples → HasRoom moves count true) := by
  unfold replayLength?
  cases moves with
  | nil => exact iff_of_true ⟨0, rfl⟩ fun hne => absurd rfl hne
  | cons first rest =>
    rw [List.isEmpty_cons, if_neg Bool.false_ne_true, exists_map_eq_ok_iff]
    simp only [sampleCount?_eq_ok_iff]
    constructor
    · rintro ⟨count, hcount, hroom⟩ - other hother
      obtain rfl : other = count := SampleCount.ext (by omega)
      exact hroom
    · intro hroom
      have hcount : (samples.toNat : Int) = samples := Int.toNat_of_nonneg (by omega)
      exact ⟨⟨samples.toNat, by omega⟩, hcount, hroom (List.cons_ne_nil _ _) _ hcount⟩

theorem exists_timeLines?_iff (n : Int) (k time length speed : Float) :
    (∃ times, Report.timeLines? (.ofDoubles n k time length speed) = .ok times) ↔
      Clock.isCountable (k * time + length / speed) = true := by
  have hamount (x : Float) : Report.amount? (.double x) = .ok (Report.amount x) := rfl
  rw [← Clock.exists_formatQuantity?_iff]
  unfold Report.timeLines? Calculation.ofDoubles
  simp only [hamount, exists_bind_eq_ok_iff, Except.ok.injEq, exists_eq_left']
  exact exists_congr fun total => and_iff_left ⟨_, rfl⟩

/-- A reference is compared if it is a double with a clock text. -/
theorem exists_comparison_iff (total : Float) {v : Value} (h : IsOption v) :
    (∃ line, Clock.withQuantity? v (Report.referenceLine? (.double total)) = .ok line) ↔
      ∃ x, v = .double x ∧ Clock.isCountable x = true := by
  obtain rfl | ⟨x, rfl⟩ := h
  · exact iff_of_false nofun nofun
  · have hline : Clock.withQuantity? (.double x) (Report.referenceLine? (.double total)) =
        (Report.referenceLine? (.double total) (.double x)).mapError .arithmetic := rfl
    have hown : (∃ y, Value.double x = .double y ∧ Clock.isCountable y = true) ↔
        Clock.isCountable x = true := by
      constructor
      · rintro ⟨y, heq, hy⟩
        cases heq
        exact hy
      · exact fun hx => ⟨x, rfl, hx⟩
    rw [hown, hline, ← Clock.exists_formatQuantity?_iff]
    simp only [mapError_eq_ok_iff, Report.referenceLine?, exists_bind_eq_ok_iff]
    exact exists_congr fun time => and_iff_left ⟨_, rfl, _, rfl⟩

theorem exists_render?_iff (p : Program Float) (n : Int) (k time length speed : Float)
    {reference : Option Value} (h : ∀ v, reference = some v → IsOption v) (points : Option Int) :
    (∃ report, Report.render? p (.ofDoubles n k time length speed) reference points = .ok report) ↔
      Clock.isCountable (k * time + length / speed) = true ∧
        ∀ v, reference = some v → ∃ x, v = .double x ∧ Clock.isCountable x = true := by
  have hcomparison : (∃ lines, reference.toList.mapM (fun v => Clock.withQuantity? v
      (Report.referenceLine? (.double (k * time + length / speed)))) = .ok lines) ↔
        ∀ v, reference = some v → ∃ x, v = .double x ∧ Clock.isCountable x = true := by
    rw [exists_mapM_toList_iff]
    exact forall₂_congr fun v hv => exists_comparison_iff _ (h v hv)
  unfold Report.render? Report.lines?
  rw [exists_map_eq_ok_iff, ← exists_timeLines?_iff n, ← hcomparison]
  simp only [exists_bind_eq_ok_iff, mapError_eq_ok_iff]
  constructor
  · rintro ⟨times, htimes, lines, hlines, -⟩
    exact ⟨⟨times, htimes⟩, lines, hlines⟩
  · rintro ⟨⟨times, htimes⟩, lines, hlines⟩
    exact ⟨times, htimes, lines, hlines, _, rfl⟩

/-- A report that fails has no status. -/
theorem exists_failure_of_report? {r : Request} {c : Config.Loaded} {p : Program Float}
    {calculation : Calculation} {stop : Stop} (h : report? r c p calculation = .error stop) :
    ∃ f, stop = .failure f := by
  unfold report? at h
  cases hpoints : replayLength? p.moves c.arcSamples with
  | error f =>
    rw [hpoints] at h
    cases h
    exact ⟨_, rfl⟩
  | ok points =>
    rw [hpoints] at h
    change (Report.render? p calculation r.reference (some points)).mapError _ = _ at h
    cases hreport : Report.render? p calculation r.reference (some points) with
    | error f =>
      rw [hreport] at h
      cases h
      cases f <;> exact ⟨_, rfl⟩
    | ok report =>
      rw [hreport] at h
      cases h

section Respond

variable {r : Request} (hr : r.Typed) {c : Config.Loaded} (hc : 2 ≤ c.arcSamples)
include hr hc

theorem exists_report?_iff (p : Program Float) (n : Int) (k time length speed : Float) :
    (∃ report, report? r c p (.ofDoubles n k time length speed) = .ok report) ↔
      (p.moves ≠ [] →
        ∀ count : SampleCount, (count.val : Int) = c.arcSamples → HasRoom p.moves count true) ∧
      Clock.isCountable (k * time + length / speed) = true ∧
      ∀ v, r.reference = some v → ∃ x, v = .double x ∧ Clock.isCountable x = true := by
  unfold report?
  simp only [exists_bind_eq_ok_iff, mapError_eq_ok_iff, exists_render?_iff p n k time length speed
    hr.reference]
  rw [exists_and_right, exists_replayLength?_iff hc]

/-- For a program that has been read only an accepted estimate can fail. -/
theorem isStatus_respondTo (log : List LogEntry) (p : Program Float) :
    (respondTo r c log p).ending.isStatus = true ↔
      ((∃ q, (p.inputs c.given r.pierceTime r.speed).validate? = .ok q) → Reportable r c p) := by
  unfold respondTo
  dsimp only
  obtain ⟨i, hi, hest⟩ | ⟨q, hq, ⟨f, hf, hest⟩ | ⟨k, time, speed, hk, hest⟩⟩ :=
    estimate?_cases hr c p
  · rw [hest, hi]
    exact iff_of_true rfl nofun
  · rw [hest]
    refine iff_of_false nofun ?_
    intro h
    obtain ⟨k, hk⟩ := (h ⟨q, hq⟩).count
    rw [hf] at hk
    cases hk
  · obtain ⟨entry, hentry⟩ := exists_estimateEntry? p p.pierces k time p.cuttingLength speed
    rw [hest]
    dsimp only
    rw [hentry]
    dsimp only
    have hfailure (stop : Stop)
        (hstop : report? r c p (.ofDoubles p.pierces k time p.cuttingLength speed) = .error stop) :
        stop.isExit = false := by
      obtain ⟨f, rfl⟩ := exists_failure_of_report? hstop
      rfl
    rw [isStatus_finish _ _ _ hfailure, exists_report?_iff hr hc]
    constructor
    · rintro ⟨hroom, htotal, hreference⟩ -
      refine ⟨⟨k, hk⟩, ?_, hreference, hroom⟩
      intro calculation hcalculation
      cases hest.symm.trans hcalculation
      exact ⟨_, rfl, htotal⟩
    · intro h
      have hreportable := h ⟨q, hq⟩
      obtain ⟨total, htotal, hcountable⟩ := hreportable.total _ hest
      cases htotal
      exact ⟨hreportable.room, hcountable, hreportable.reference⟩

/-- The program is always answered but under a name that cannot be one. -/
theorem isStatus_program? (log : List LogEntry) (file : FileState) :
    (match program? r.path file with
      | .error stop => finish r.verbose log (.error stop)
      | .ok p => respondTo r c log p).ending.isStatus = true ↔
    file ≠ .nullInName ∧ ∀ bytes, file = .contents bytes →
      let p : Program Float := .parseBytes bytes
      (∃ q, (p.inputs c.given r.pierceTime r.speed).validate? = .ok q) → Reportable r c p := by
  cases file with
  | contents bytes =>
    have hrespond := isStatus_respondTo hr hc log (.parseBytes bytes)
    change (respondTo r c log (.parseBytes bytes)).ending.isStatus = true ↔ _
    rw [hrespond]
    constructor
    · intro hprogram
      refine ⟨nofun, ?_⟩
      rintro _ ⟨⟩
      exact hprogram
    · exact fun h => h.2 bytes rfl
  | nullInName => exact iff_of_false nofun fun h => h.1 rfl
  | missing | directory | underFile | nameTooLong | unreadable =>
    exact iff_of_true rfl ⟨nofun, nofun⟩

end Respond

/-- Which accepted runs end with a status of the command's own, for every configuration and every
program. -/
theorem respond_isStatus_iff {arguments : List String} {r : Request}
    (h : Request.ofArguments? arguments = .ok r) (configFile programFile : FileState) :
    (respond r configFile programFile).ending.isStatus = true ↔
      ConfigAnswered r.config configFile ∧
      ∀ c log, settings? r.config configFile = .ok (c, log) →
        programFile ≠ .nullInName ∧
        ∀ bytes, programFile = .contents bytes →
          let p : Program Float := .parseBytes bytes
          (∃ q, (p.inputs c.given r.pierceTime r.speed).validate? = .ok q) →
            Reportable r c p := by
  have hr : r.Typed := Request.typed_of_arguments h
  unfold respond
  obtain ⟨c, log, hsettings, hanswered, hc⟩ | ⟨stop, hsettings, hstop⟩ :=
    settings?_cases r.config configFile
  · rw [hsettings]
    refine (isStatus_program? hr hc log programFile).trans ?_
    constructor
    · intro hprogram
      refine ⟨hanswered, ?_⟩
      rintro _ _ ⟨⟩
      exact hprogram
    · exact fun h => h.2 c log rfl
  · rw [hsettings]
    dsimp only
    rw [isStatus_finish_error, hstop]
    exact ⟨fun hanswered => ⟨hanswered, nofun⟩, fun h => h.1⟩

end Run

/-- A cut and an arc with a circle, by the default settings. -/
theorem respond_isStatus_of_arc :
    letI : Host := .standard
    let r : Request := ⟨"part.nc", none, none, none, none, false⟩
    let bytes := "G01 X1 F10\nG02 X2 Y0 I1 J2\n".toUTF8.toList
    Request.ofArguments? ["part.nc"] = .ok r ∧
      (respond r .missing (.contents bytes)).ending.isStatus = true ∧
      Reportable r .default (.parseBytes bytes) := by
  let host : Host := .standard
  intro r bytes
  have h : Request.ofArguments? ["part.nc"] = .ok r := rfl
  have hstatus : (respond r .missing (.contents bytes)).ending.isStatus = true := by
    decide +kernel
  have hvalid : ((Program.parseBytes bytes).inputs (Config.given .default) none
      none).validate?.toBool = true := by decide +kernel
  have hall := (respond_isStatus_iff h .missing (.contents bytes)).mp hstatus
  have hprogram := (hall.2 .default [] rfl).2 bytes rfl
  exact ⟨h, hstatus, hprogram (exists_eq_ok_of_toBool hvalid)⟩

/-- An infinite number of samples escapes, where one that is no number at all is refused. -/
theorem respond_infinite_samples :
    letI : Host := .standard
    ∃ r, Request.ofArguments? ["part.nc", "--config", "c.json"] = .ok r ∧
      (respond r (.contents "\x7b\x22arc_samples\x22: Infinity\x7d".toUTF8.toList)
        (.contents "G01 X1 F10\n".toUTF8.toList)).ending.isStatus = false ∧
      (respond r (.contents "\x7b\x22arc_samples\x22: NaN\x7d".toUTF8.toList)
        (.contents "G01 X1 F10\n".toUTF8.toList)).ending.isStatus = true :=
  ⟨_, rfl, by decide +kernel, by decide +kernel⟩

end Waterjet.Cli
