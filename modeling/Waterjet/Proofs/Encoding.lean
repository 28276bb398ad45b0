import Waterjet.Text.Utf8

/-! Reading back what UTF-8 writes. The bytes of a character take a reader that stands between two
characters to the next such place with this character found: the bounds that the first byte sets
for the second leave out nothing that is ever written. -/
namespace Waterjet.Text.Utf8

theorem toNat_ofNat_of_lt {n : Nat} (h : n < 256) : (UInt8.ofNat n).toNat = n :=
  UInt8.toNat_ofNat_of_lt' h

section Lead

variable {n : Nat}

theorem lead?_two (hlow : 0x80 ≤ n) (hhigh : n < 0x800) :
    lead? (n / 64 + 0xC0) = some ⟨n / 64 + 0xC0, 1, 1, n / 64, 0x80, 0xBF⟩ := by
  have hbounds : (0xC2 ≤ n / 64 + 0xC0 && n / 64 + 0xC0 ≤ 0xDF) = true := by
    rw [Bool.and_eq_true, decide_eq_true_eq, decide_eq_true_eq]
    omega
  rw [lead?, if_pos hbounds, Nat.add_sub_cancel]

/-- The bounds after the first byte of three admit the second byte of every character. -/
theorem lead?_three (hlow : 0x800 ≤ n) (hhigh : n < 0x10000) (hsurrogate : n < 0xD800 ∨ 0xDFFF < n) :
    ∃ low high, lead? (n / 4096 + 0xE0) = some ⟨n / 4096 + 0xE0, 1, 2, n / 4096, low, high⟩ ∧
      low ≤ n / 64 % 64 + 0x80 ∧ n / 64 % 64 + 0x80 ≤ high := by
  unfold lead?
  simp only [Bool.and_eq_true, decide_eq_true_eq, beq_iff_eq]
  rw [if_neg (by omega)]
  by_cases hE0 : n / 4096 = 0
  · rw [if_pos (by omega), hE0]
    exact ⟨0xA0, 0xBF, rfl, by omega, by omega⟩
  rw [if_neg (by omega)]
  by_cases hED : n / 4096 = 0xD
  · rw [if_pos (by omega), hED]
    exact ⟨0x80, 0x9F, rfl, by omega, by omega⟩
  rw [if_neg (by omega), if_pos (by omega), Nat.add_sub_cancel]
  exact ⟨0x80, 0xBF, rfl, by omega, by omega⟩

theorem lead?_four (hlow : 0x10000 ≤ n) (hhigh : n < 0x110000) :
    ∃ low high, lead? (n / 262144 + 0xF0) = some ⟨n / 262144 + 0xF0, 1, 3, n / 262144, low, high⟩ ∧
      low ≤ n / 4096 % 64 + 0x80 ∧ n / 4096 % 64 + 0x80 ≤ high := by
  unfold lead?
  simp only [Bool.and_eq_true, decide_eq_true_eq, beq_iff_eq]
  rw [if_neg (by omega), if_neg (by omega), if_neg (by omega), if_neg (by omega)]
  by_cases hF0 : n / 262144 = 0
  · rw [if_pos (by omega), hF0]
    exact ⟨0x90, 0xBF, rfl, by omega, by omega⟩
  rw [if_neg (by omega)]
  by_cases hF4 : n / 262144 = 4
  · rw [if_neg (by omega), if_pos (by omega), hF4]
    exact ⟨0x80, 0x8F, rfl, by omega, by omega⟩
  rw [if_pos (by omega), Nat.add_sub_cancel]
  exact ⟨0x80, 0xBF, rfl, by omega, by omega⟩

end Lead

namespace Reader

theorem step_ascii (position : Nat) (found : List Piece) {n : Nat} (h : n < 0x80) :
    step ⟨position, none, found⟩ (UInt8.ofNat n) =
      ⟨position + 1, none, .char (Char.ofNat n) :: found⟩ := by
  show begin _ (UInt8.ofNat n).toNat = _
  rw [toNat_ofNat_of_lt (by omega), begin, if_pos h]

theorem step_lead (position : Nat) (found : List Piece) {b : Nat} {p : Pending} (hb : b < 256)
    (hlead : lead? b = some p) (hlow : 0x80 ≤ b) :
    step ⟨position, none, found⟩ (UInt8.ofNat b) = ⟨position + 1, some p, found⟩ := by
  show begin _ (UInt8.ofNat b).toNat = _
  rw [toNat_ofNat_of_lt hb, begin, if_neg (by omega), hlead]

/-- A byte within the bounds adds six bits, and the last one ends the character. -/
theorem step_continuation (position : Nat) (found : List Piece) {p : Pending} {d : Nat}
    (hd : d < 64) (hlow : p.low ≤ d + 0x80) (hhigh : d + 0x80 ≤ p.high) :
    step ⟨position, some p, found⟩ (UInt8.ofNat (d + 0x80)) =
      if p.missing ≤ 1 then ⟨position + 1, none, .char (Char.ofNat (p.code * 64 + d)) :: found⟩
      else ⟨position + 1, some ⟨p.first, p.seen + 1, p.missing - 1, p.code * 64 + d, 0x80, 0xBF⟩,
        found⟩ := by
  have hbounds : (p.low ≤ d + 0x80 && d + 0x80 ≤ p.high) = true := by
    rw [Bool.and_eq_true, decide_eq_true_eq, decide_eq_true_eq]
    exact ⟨hlow, hhigh⟩
  unfold step
  dsimp only
  rw [toNat_ofNat_of_lt (by omega), if_pos hbounds, Nat.add_sub_cancel]

section Widths

variable (position : Nat) (found : List Piece) {n : Nat}

theorem foldl_step_two (hlow : 0x80 ≤ n) (hhigh : n < 0x800) :
    [UInt8.ofNat (n / 64 % 32 + 0xC0), UInt8.ofNat (n % 64 + 0x80)].foldl step
        ⟨position, none, found⟩ =
      ⟨position + 1 + 1, none, .char (Char.ofNat n) :: found⟩ := by
  have hfirst : n / 64 % 32 = n / 64 := Nat.mod_eq_of_lt (by omega)
  have hcode : n / 64 * 64 + n % 64 = n := Nat.div_add_mod' n 64
  rw [hfirst, List.foldl_cons, step_lead _ _ (by omega) (lead?_two hlow hhigh) (by omega),
    List.foldl_cons, step_continuation _ _ (by omega) (by simp) (by simp; omega), List.foldl_nil,
    if_pos (Nat.le_refl 1), hcode]

theorem foldl_step_three (hlow : 0x800 ≤ n) (hhigh : n < 0x10000)
    (hsurrogate : n < 0xD800 ∨ 0xDFFF < n) :
    [UInt8.ofNat (n / 4096 % 16 + 0xE0), UInt8.ofNat (n / 64 % 64 + 0x80),
        UInt8.ofNat (n % 64 + 0x80)].foldl step ⟨position, none, found⟩ =
      ⟨position + 1 + 1 + 1, none, .char (Char.ofNat n) :: found⟩ := by
  obtain ⟨low, high, hlead, hsecond, hsecond'⟩ := lead?_three hlow hhigh hsurrogate
  have hfirst : n / 4096 % 16 = n / 4096 := Nat.mod_eq_of_lt (by omega)
  have hcode : (n / 4096 * 64 + n / 64 % 64) * 64 + n % 64 = n := by omega
  rw [hfirst, List.foldl_cons, step_lead _ _ (by omega) hlead (by omega), List.foldl_cons,
    step_continuation _ _ (by omega) hsecond hsecond', if_neg (by simp), List.foldl_cons,
    step_continuation _ _ (by omega) (by simp) (by simp; omega), List.foldl_nil,
    if_pos (by simp), hcode]

theorem foldl_step_four (hlow : 0x10000 ≤ n) (hhigh : n < 0x110000) :
    [UInt8.ofNat (n / 262144 % 8 + 0xF0), UInt8.ofNat (n / 4096 % 64 + 0x80),
        UInt8.ofNat (n / 64 % 64 + 0x80), UInt8.ofNat (n % 64 + 0x80)].foldl step
        ⟨position, none, found⟩ =
      ⟨position + 1 + 1 + 1 + 1, none, .char (Char.ofNat n) :: found⟩ := by
  obtain ⟨low, high, hlead, hsecond, hsecond'⟩ := lead?_four hlow hhigh
  have hfirst : n / 262144 % 8 = n / 262144 := Nat.mod_eq_of_lt (by omega)
  have hcode : ((n / 262144 * 64 + n / 4096 % 64) * 64 + n / 64 % 64) * 64 + n % 64 = n := by
    omega
  rw [hfirst, List.foldl_cons, step_lead _ _ (by omega) hlead (by omega), List.foldl_cons,
    step_continuation _ _ (by omega) hsecond hsecond', if_neg (by simp), List.foldl_cons,
    step_continuation _ _ (by omega) (by simp) (by simp; omega), if_neg (by simp),
    List.foldl_cons, step_continuation _ _ (by omega) (by simp) (by simp; omega),
    List.foldl_nil, if_pos (by simp), hcode]

end Widths

/-- The bytes of a character are read as this character, wherever they stand. -/
theorem foldl_step_utf8EncodeChar (position : Nat) (found : List Piece) (c : Char) :
    ∃ position', (String.utf8EncodeChar c).foldl step ⟨position, none, found⟩ =
      ⟨position', none, .char c :: found⟩ := by
  obtain ⟨n, hn⟩ : ∃ n, c.val.toNat = n := ⟨_, rfl⟩
  have hc : Char.ofNat n = c := hn ▸ Char.ofNat_toNat c
  have hvalid : n < 0xD800 ∨ (0xDFFF < n ∧ n < 0x110000) := hn ▸ c.valid
  unfold String.utf8EncodeChar
  dsimp only
  rw [hn]
  by_cases hone : n ≤ 127
  · rw [if_pos hone, List.foldl_cons, List.foldl_nil, step_ascii position found (by omega), hc]
    exact ⟨_, rfl⟩
  rw [if_neg hone]
  by_cases htwo : n ≤ 2047
  · rw [if_pos htwo, foldl_step_two position found (by omega) (by omega), hc]
    exact ⟨_, rfl⟩
  rw [if_neg htwo]
  by_cases hthree : n ≤ 65535
  · rw [if_pos hthree, foldl_step_three position found (by omega) (by omega) (by omega), hc]
    exact ⟨_, rfl⟩
  rw [if_neg hthree, foldl_step_four position found (by omega) (by omega), hc]
  exact ⟨_, rfl⟩

theorem foldl_step_flatMap (position : Nat) (found : List Piece) (cs : List Char) :
    ∃ position', (cs.flatMap String.utf8EncodeChar).foldl step ⟨position, none, found⟩ =
      ⟨position', none, (cs.map Piece.char).reverse ++ found⟩ := by
  induction cs generalizing position found with
  | nil => exact ⟨position, rfl⟩
  | cons c cs ih =>
    obtain ⟨middle, hc⟩ := foldl_step_utf8EncodeChar position found c
    obtain ⟨position', hcs⟩ := ih middle (.char c :: found)
    refine ⟨position', ?_⟩
    rw [List.flatMap_cons, List.foldl_append, hc, hcs]
    simp

end Reader

/-- Every text is read back from its bytes, without a fault. -/
theorem pieces_flatMap (cs : List Char) :
    pieces (cs.flatMap String.utf8EncodeChar) = cs.map Piece.char := by
  obtain ⟨position, hfold⟩ := Reader.foldl_step_flatMap 0 [] cs
  rw [pieces, hfold, List.append_nil]
  exact List.reverse_reverse _

theorem decode_flatMap (cs : List Char) :
    decode (cs.flatMap String.utf8EncodeChar) = cs := by
  rw [decode, pieces_flatMap, List.map_map]
  exact List.map_id cs

theorem toList_loop (bytes : ByteArray) (i : Nat) (done : List UInt8) :
    ByteArray.toList.loop bytes i done = done.reverse ++ bytes.data.toList.drop i := by
  fun_induction ByteArray.toList.loop bytes i done with
  | case1 i done h ih =>
    have hi : i < bytes.data.toList.length := h
    have hget : bytes.get! i = bytes.data.toList[i] := getElem!_pos bytes.data i h
    rw [ih, List.drop_eq_getElem_cons hi, hget, List.reverse_cons, List.append_assoc,
      List.singleton_append]
  | case2 i done h =>
    have hi : bytes.data.toList.length ≤ i := Nat.le_of_not_lt h
    rw [List.drop_eq_nil_of_le hi, List.append_nil]

/-- The bytes of a text are those of its characters in a row. -/
theorem toList_toUTF8 (text : String) :
    text.toUTF8.toList = text.toList.flatMap String.utf8EncodeChar := by
  have hbytes : text.toUTF8 = text.toList.utf8Encode := by
    rw [String.toUTF8_eq_toByteArray, ← String.toByteArray_ofList, String.ofList_toList]
  rw [ByteArray.toList, toList_loop, hbytes]
  exact List.toList_data_toByteArray

/-- A text is read back from the bytes that it is stored in. -/
theorem decode_toUTF8 (text : String) : decode text.toUTF8.toList = text.toList := by
  rw [toList_toUTF8, decode_flatMap]

end Waterjet.Text.Utf8
