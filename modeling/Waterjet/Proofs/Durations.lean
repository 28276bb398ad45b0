import Waterjet.Host.Standard
import Waterjet.Proofs.Mixed
import Waterjet.Proofs.Numerals
import Waterjet.Proofs.Reals

/-! Clock texts as durations. A text has one reading as hours, minutes and seconds, and these are
the seconds of the duration rounded once, halves up, before they are split. So a clock keeps the
order of durations and tells apart exactly those that are rounded to different seconds. -/
namespace Waterjet
open Number

namespace Number

section Padding

variable {width n : Nat}

theorem length_padded (hwidth : 0 < width) (h : n < 10 ^ width) :
    (padded width n).length = width := by
  have hlength : (decimalDigits n).length ≤ width :=
    (Nat.length_toDigits_le_iff (by decide) hwidth).mpr h
  rw [padded, List.length_append, List.length_replicate]
  omega

theorem le_length_padded (width n : Nat) : width ≤ (padded width n).length := by
  rw [padded, List.length_append, List.length_replicate]
  omega

/-- Digits beyond the width are not padded. -/
theorem head?_padded_ne (hwidth : 0 < width) (h : width < (padded width n).length) :
    (padded width n).head? ≠ some '0' := by
  have hpos : 0 < n := by
    by_contra hzero
    have hlength := length_padded (n := n) hwidth
      (Nat.eq_zero_of_not_pos hzero ▸ Nat.pow_pos (by decide))
    omega
  have hdigits : padded width n = decimalDigits n := by
    rw [padded, List.length_append, List.length_replicate] at h
    have hnone : width - (decimalDigits n).length = 0 := by omega
    rw [padded, hnone, List.replicate_zero, List.nil_append]
  rw [hdigits]
  exact (isLeading_decimalDigits hpos).head

end Padding

/-- The floor of a finite double is that of its value. -/
theorem Dyadic.floor_eq (d : Dyadic) : d.floor = ⌊d.toRat⌋ := by
  have hvalue : d.toRat =
      ((if d.negative then -(d.magnitude.num : ℤ) else d.magnitude.num : ℤ) : ℚ) /
        (d.magnitude.den : ℕ) := by
    unfold toRat Ratio.value
    split
    · rw [Int.cast_neg, neg_div, Int.cast_natCast]
    · rw [Int.cast_natCast]
  rw [hvalue, Rat.floor_intCast_div_natCast]
  exact Int.fdiv_eq_ediv_of_nonneg _ (Int.natCast_nonneg _)

theorem floor?_of_decode {x : Float} {d : Dyadic} (h : decode x = .finite d) :
    floor? x = .ok ⌊d.toRat⌋ := by
  unfold floor?
  rw [h, ← d.floor_eq]

end Number

namespace Clock

/-- What a clock shows: two digits each for minutes and seconds below sixty, and two digits or more
for the hours, padded to two at most. -/
structure Face where
  hours : List Char
  minutes : List Char
  seconds : List Char
  digit : ∀ c ∈ hours ++ minutes ++ seconds, c.isDigit = true
  length_hours : 2 ≤ hours.length
  head_hours : 2 < hours.length → hours.head? ≠ some '0'
  length_minutes : minutes.length = 2
  minutes_lt : digitsValue minutes < 60
  length_seconds : seconds.length = 2
  seconds_lt : digitsValue seconds < 60

namespace Face

def chars (f : Face) : List Char := f.hours ++ ':' :: (f.minutes ++ ':' :: f.seconds)

def text (f : Face) : String := String.ofList f.chars

/-- The time on a face, in seconds. -/
def total (f : Face) : ℕ :=
  3600 * digitsValue f.hours + 60 * digitsValue f.minutes + digitsValue f.seconds

def ofSeconds (n : ℕ) : Face where
  hours := padded 2 (n / 3600)
  minutes := padded 2 (n % 3600 / 60)
  seconds := padded 2 (n % 3600 % 60)
  digit := by
    simp only [List.forall_mem_append]
    exact ⟨⟨fun _ => isDigit_padded, fun _ => isDigit_padded⟩, fun _ => isDigit_padded⟩
  length_hours := le_length_padded 2 _
  head_hours := head?_padded_ne two_pos
  length_minutes := length_padded two_pos (by omega)
  minutes_lt := by
    rw [digitsValue_padded]
    omega
  length_seconds := length_padded two_pos (by omega)
  seconds_lt := by
    rw [digitsValue_padded]
    omega

theorem hours_ofSeconds (n : ℕ) : digitsValue (ofSeconds n).hours = n / 3600 :=
  digitsValue_padded 2 _

theorem total_ofSeconds (n : ℕ) : (ofSeconds n).total = n := by
  change 3600 * digitsValue (padded 2 _) + 60 * digitsValue (padded 2 _) +
    digitsValue (padded 2 _) = n
  rw [digitsValue_padded, digitsValue_padded, digitsValue_padded]
  omega

theorem splitOn_chars (f : Face) : f.chars.splitOn ':' = [f.hours, f.minutes, f.seconds] := by
  have hcolon {cs : List Char} (hcs : cs ⊆ f.hours ++ f.minutes ++ f.seconds) : ':' ∉ cs :=
    fun h => absurd (f.digit ':' (hcs h)) (by decide)
  have hhours : ':' ∉ f.hours := hcolon (by simp)
  have hminutes : ':' ∉ f.minutes := hcolon (by simp)
  have hseconds : ':' ∉ f.seconds := hcolon (by simp)
  rw [chars, List.splitOn_append_cons_self, List.splitOn_append_cons_self,
    List.splitOn_eq_singleton hhours, List.splitOn_eq_singleton hminutes,
    List.splitOn_eq_singleton hseconds]
  rfl

/-- A clock text has one reading. -/
theorem text_injective {f g : Face} (h : f.text = g.text) : f = g := by
  have hchars : f.chars = g.chars := String.ofList_injective h
  have hparts := congrArg (List.splitOn ':') hchars
  rw [f.splitOn_chars, g.splitOn_chars] at hparts
  cases f
  cases g
  simp_all

end Face

theorem twoPlaces_natCast (n : ℕ) : twoPlaces n = String.ofList (padded 2 n) := by
  rw [twoPlaces, if_neg (Int.natCast_nonneg n).not_gt, Int.natAbs_natCast]

theorem text_natCast (n : ℕ) : text n = (Face.ofSeconds n).text := by
  have hhours : (n : ℤ).fdiv 3600 = (n / 3600 : ℕ) := (Int.ofNat_fdiv n 3600).symm
  have hrest : (n : ℤ).fmod 3600 = (n % 3600 : ℕ) := (Int.ofNat_fmod n 3600).symm
  have hminutes : ((n % 3600 : ℕ) : ℤ).fdiv 60 = (n % 3600 / 60 : ℕ) := (Int.ofNat_fdiv _ 60).symm
  have hseconds : ((n % 3600 : ℕ) : ℤ).fmod 60 = (n % 3600 % 60 : ℕ) := (Int.ofNat_fmod _ 60).symm
  apply String.toList_injective
  unfold text
  dsimp only
  rw [hhours, hrest, hminutes, hseconds, twoPlaces_natCast, twoPlaces_natCast, twoPlaces_natCast]
  simp [Face.text, Face.chars, Face.ofSeconds, toString]

section Exact

-- Where the reals are scalars, a division could be that of the scalars.
theorem natCast_div_two : ((1 : ℕ) : ℝ) / ((2 : ℕ) : ℝ) = 2⁻¹ := by
  rw [Nat.cast_one, Nat.cast_ofNat, one_div]

variable [Reading]

theorem format?_reals (minutes : ℝ) : format? minutes = .ok (text ⌊60 * minutes + 2⁻¹⌋) := by
  have hhalf : (Scalar.half : ℝ) = 2⁻¹ := natCast_div_two
  have hformat : format? minutes =
      .ok (text ⌊minutes * ((60 : ℕ) : ℝ) + Scalar.half⌋) := rfl
  rw [hformat, mul_comm, Nat.cast_ofNat, hhalf]

/-- From zero on the rounded seconds are a natural. -/
theorem exists_format?_eq {minutes : ℝ} (h : 0 ≤ minutes) :
    ∃ n : ℕ, (n : ℤ) = ⌊60 * minutes + 2⁻¹⌋ ∧ format? minutes = .ok (Face.ofSeconds n).text := by
  have hnonneg : 0 ≤ ⌊60 * minutes + 2⁻¹⌋ := Int.floor_nonneg.mpr (by linarith)
  obtain ⟨n, hn⟩ := Int.eq_ofNat_of_zero_le hnonneg
  refine ⟨n, hn.symm, ?_⟩
  rw [format?_reals, hn, text_natCast]

/-- What is on a clock face is the rounded seconds. -/
theorem total_eq {minutes : ℝ} (h : 0 ≤ minutes) {face : Face}
    (hface : format? minutes = .ok face.text) : (face.total : ℤ) = ⌊60 * minutes + 2⁻¹⌋ := by
  obtain ⟨n, hn, hformat⟩ := exists_format?_eq h
  have hsame : face = Face.ofSeconds n :=
    Face.text_injective (Except.ok.inj (hface.symm.trans hformat))
  rw [hsame, Face.total_ofSeconds, hn]

end Exact

/-- The seconds of a number of a job are its product with sixty, and the text is that of the floor
of their sum with a half. -/
theorem formatQuantity?_of_sum [Host] {q product : Quantity} {sum : Float}
    (hproduct : q.mul? (.integer 60) = .ok product)
    (hsum : product.add? (.double 0.5) = .ok (.double sum)) :
    formatQuantity? q = (floor? sum).map text := by
  have hhalf : (0.5 : Float) = Scalar.half := by
    change (0.5 : Float) = Float.ofNat 1 / Float.ofNat 2
    decide +kernel
  have hsixty : doubleOfInt? 60 = .ok ((60 : ℕ) : Float) := by
    change doubleOfInt? 60 = .ok (Float.ofNat 60)
    decide +kernel
  cases q with
  | integer n =>
    have hadd : (Quantity.integer (n * 60)).add? (.double 0.5) =
        doubleOfInt? (n * 60) >>= fun seconds => .ok (.double (seconds + 0.5)) := rfl
    have hformat : formatQuantity? (.integer n) = doubleOfInt? (n * 60) >>= fun seconds =>
        floor? (seconds + Scalar.half) >>= fun rounded => pure (text rounded) := rfl
    obtain rfl : .integer (n * 60) = product := Except.ok.inj hproduct
    rw [hadd] at hsum
    obtain ⟨seconds, hseconds, hsum⟩ := bind_eq_ok_iff.mp hsum
    obtain rfl : seconds + 0.5 = sum := Quantity.double.inj (Except.ok.inj hsum)
    rw [hformat, hseconds, hhalf]
    rfl
  | double x =>
    have hmul : (Quantity.double x).mul? (.integer 60) =
        doubleOfInt? 60 >>= fun sixty => .ok (.double (x * sixty)) := rfl
    have hformat : formatQuantity? (.double x) =
        (floor? (x * ((60 : ℕ) : Float) + Scalar.half)).map text := rfl
    rw [hmul, hsixty] at hproduct
    obtain rfl : .double (x * ((60 : ℕ) : Float)) = product := Except.ok.inj hproduct
    obtain rfl : x * ((60 : ℕ) : Float) + 0.5 = sum := Quantity.double.inj (Except.ok.inj hsum)
    rw [hformat, hhalf]

section Faithful

theorem floor_error (x : ℝ) : (⌊x + 2⁻¹⌋ : ℝ) - x ∈ Set.Ioc (-2⁻¹) 2⁻¹ := by
  have hle := Int.floor_le (x + 2⁻¹)
  have hlt := Int.lt_floor_add_one (x + 2⁻¹)
  constructor <;> linarith

variable [Reading]

theorem format?_eq_iff {minutes other : ℝ} (h : 0 ≤ minutes) (hother : 0 ≤ other) :
    format? other = format? minutes ↔ ⌊60 * other + 2⁻¹⌋ = ⌊60 * minutes + 2⁻¹⌋ := by
  constructor
  · intro hsame
    obtain ⟨n, hn, hformat⟩ := exists_format?_eq h
    rw [← total_eq hother (hsame.trans hformat), ← total_eq h hformat]
  · intro hsame
    rw [format?_reals, format?_reals, hsame]

/-- Some longer duration has as many hours as you like. -/
theorem exists_longer {minutes : ℝ} (h : 0 ≤ minutes) (hours : ℕ) :
    ∃ longer : ℝ, minutes ≤ longer ∧
      ∃ other : Face, format? longer = .ok other.text ∧ hours ≤ digitsValue other.hours := by
  have hlong : (60 * hours : ℝ) ≤ max minutes (60 * hours) := le_max_right ..
  obtain ⟨n, hn, hformat⟩ := exists_format?_eq (h.trans (le_max_left minutes (60 * hours)))
  refine ⟨_, le_max_left .., _, hformat, ?_⟩
  have hfloor : ((3600 * hours : ℕ) : ℤ) ≤ ⌊60 * max minutes (60 * hours) + 2⁻¹⌋ := by
    apply Int.le_floor.mpr
    push_cast
    linarith
  rw [Face.hours_ofSeconds, Nat.le_div_iff_mul_le (by decide)]
  omega

/-- A duration from zero on has a clock text with one reading: its seconds, rounded halves up. So
the text is at most half a second off, a longer duration is shown as no less time, two durations
have the same text exactly if they are rounded to the same second, and there is no end of hours. A
number of a job has the text of its duration if sixty times it and a half more come out exact. -/
theorem format?_faithful [Host] {minutes : ℝ} (h : 0 ≤ minutes) :
    ∃ face : Face, format? minutes = .ok face.text ∧
      (∀ other : Face, other.text = face.text → other = face) ∧
      (face.total : ℤ) = ⌊60 * minutes + 2⁻¹⌋ ∧
      (face.total : ℝ) - 60 * minutes ∈ Set.Ioc (-2⁻¹) 2⁻¹ ∧
      (∀ (longer : ℝ) (other : Face), minutes ≤ longer → format? longer = .ok other.text →
        face.total ≤ other.total) ∧
      (∀ other : ℝ, 0 ≤ other →
        (format? other = format? minutes ↔ ⌊60 * other + 2⁻¹⌋ = ⌊60 * minutes + 2⁻¹⌋)) ∧
      (∀ hours : ℕ, ∃ longer : ℝ, minutes ≤ longer ∧
        ∃ other : Face, format? longer = .ok other.text ∧ hours ≤ digitsValue other.hours) ∧
      ∀ (q product : Quantity) (sum : Float) (d : Number.Dyadic),
        q.mul? (.integer 60) = .ok product →
        product.add? (.double 0.5) = .ok (.double sum) → decode sum = .finite d →
        (d.toRat : ℝ) = 60 * minutes + 2⁻¹ → formatQuantity? q = .ok face.text := by
  obtain ⟨n, hn, hformat⟩ := exists_format?_eq h
  have htotal := total_eq h hformat
  refine ⟨Face.ofSeconds n, hformat, fun _ => Face.text_injective, htotal, ?_, ?_, ?_, ?_, ?_⟩
  · have hcast : ((Face.ofSeconds n).total : ℝ) = ⌊60 * minutes + 2⁻¹⌋ := by
      rw [← htotal, Int.cast_natCast]
    rw [hcast]
    exact floor_error (60 * minutes)
  · intro longer other hle hother
    have hfloor : ⌊60 * minutes + 2⁻¹⌋ ≤ ⌊60 * longer + 2⁻¹⌋ := Int.floor_mono (by linarith)
    rw [← htotal, ← total_eq (h.trans hle) hother] at hfloor
    exact Int.ofNat_le.mp hfloor
  · exact fun _ hother => format?_eq_iff h hother
  · exact exists_longer h
  · intro q product sum d hproduct hsum hd hvalue
    have hfloor : ⌊d.toRat⌋ = (n : ℤ) := by
      rw [hn, ← hvalue, Rat.floor_cast]
    rw [formatQuantity?_of_sum hproduct hsum, floor?_of_decode hd, hfloor]
    exact congrArg Except.ok (text_natCast n)

end Faithful

/-- Rounding carries through the seconds and the minutes into the hours. -/
theorem format?_faithful_carry :
    letI : Reading := ⟨Decimal.toReal⟩
    letI : Host := .standard
    (0 : ℝ) ≤ 59.999 ∧ ∃ face : Face, format? (59.999 : ℝ) = .ok face.text ∧
      face.total = 3600 ∧ face.text = "01:00:00" := by
  let inst : Reading := ⟨Decimal.toReal⟩
  let host : Host := .standard
  have hnonneg : (0 : ℝ) ≤ 59.999 := by norm_num
  have hfloor : ⌊60 * (59.999 : ℝ) + 2⁻¹⌋ = 3600 := by norm_num [Int.floor_eq_iff]
  obtain ⟨face, hformat, -, htotal, -⟩ := format?_faithful hnonneg
  rw [hfloor] at htotal
  have htext : format? (59.999 : ℝ) = .ok "01:00:00" := by
    rw [format?_reals, hfloor]
    decide +kernel
  exact ⟨hnonneg, face, hformat, Int.ofNat_inj.mp htotal, Except.ok.inj (hformat.symm.trans htext)⟩

end Clock

end Waterjet
