import Mathlib.Data.List.Basic
import Waterjet.Proofs.Encoding

/-! Strict reading of UTF-8. The bytes that go into a reader are accounted for: they are those of
the characters found, with the beginning of one more at most, until there is a fault. So what can
be read strictly are the bytes of texts and nothing else. -/
namespace Waterjet.Text.Utf8

section Written

variable {n : Nat}

theorem toNat_val_ofNat (h : n < 0xD800 ∨ 0xDFFF < n ∧ n < 0x110000) :
    (Char.ofNat n).val.toNat = n := by
  have hvalid : n.isValidChar := h
  rw [Char.ofNat, dif_pos hvalid]
  rfl

theorem utf8EncodeChar_one (h : n < 0x80) :
    String.utf8EncodeChar (Char.ofNat n) = [UInt8.ofNat n] := by
  unfold String.utf8EncodeChar
  dsimp only
  rw [toNat_val_ofNat (by omega), if_pos (by omega)]

theorem utf8EncodeChar_two {c d : Nat} (hd : d < 64) (hlow : 0x80 ≤ c * 64 + d)
    (hhigh : c * 64 + d < 0x800) :
    String.utf8EncodeChar (Char.ofNat (c * 64 + d)) =
      [UInt8.ofNat (c + 0xC0), UInt8.ofNat (d + 0x80)] := by
  have hfirst : (c * 64 + d) / 64 % 32 = c := by omega
  have hsecond : (c * 64 + d) % 64 = d := by omega
  unfold String.utf8EncodeChar
  dsimp only
  rw [toNat_val_ofNat (by omega), if_neg (by omega), if_pos (by omega), hfirst, hsecond]

theorem utf8EncodeChar_three {c d e : Nat} (hd : d < 64) (he : e < 64)
    (hlow : 0x800 ≤ (c * 64 + d) * 64 + e) (hhigh : (c * 64 + d) * 64 + e < 0x10000)
    (hsurrogate : (c * 64 + d) * 64 + e < 0xD800 ∨ 0xDFFF < (c * 64 + d) * 64 + e) :
    String.utf8EncodeChar (Char.ofNat ((c * 64 + d) * 64 + e)) =
      [UInt8.ofNat (c + 0xE0), UInt8.ofNat (d + 0x80), UInt8.ofNat (e + 0x80)] := by
  have hfirst : ((c * 64 + d) * 64 + e) / 4096 % 16 = c := by omega
  have hsecond : ((c * 64 + d) * 64 + e) / 64 % 64 = d := by omega
  have hthird : ((c * 64 + d) * 64 + e) % 64 = e := by omega
  unfold String.utf8EncodeChar
  dsimp only
  rw [toNat_val_ofNat (by omega), if_neg (by omega), if_neg (by omega), if_pos (by omega), hfirst,
    hsecond, hthird]

theorem utf8EncodeChar_four {c d e f : Nat} (hd : d < 64) (he : e < 64) (hf : f < 64)
    (hlow : 0x10000 ≤ ((c * 64 + d) * 64 + e) * 64 + f)
    (hhigh : ((c * 64 + d) * 64 + e) * 64 + f < 0x110000) :
    String.utf8EncodeChar (Char.ofNat (((c * 64 + d) * 64 + e) * 64 + f)) =
      [UInt8.ofNat (c + 0xF0), UInt8.ofNat (d + 0x80), UInt8.ofNat (e + 0x80),
        UInt8.ofNat (f + 0x80)] := by
  have hfirst : (((c * 64 + d) * 64 + e) * 64 + f) / 262144 % 8 = c := by omega
  have hsecond : (((c * 64 + d) * 64 + e) * 64 + f) / 4096 % 64 = d := by omega
  have hthird : (((c * 64 + d) * 64 + e) * 64 + f) / 64 % 64 = e := by omega
  have hfourth : (((c * 64 + d) * 64 + e) * 64 + f) % 64 = f := by omega
  unfold String.utf8EncodeChar
  dsimp only
  rw [toNat_val_ofNat (by omega), if_neg (by omega), if_neg (by omega), if_neg (by omega), hfirst,
    hsecond, hthird, hfourth]

end Written

/-- The bytes read so far begin the character that any admissible rest would complete. -/
structure Pending.Begins (p : Pending) (read : List UInt8) : Prop where
  missing : 1 ≤ p.missing
  low : 0x80 ≤ p.low
  high : p.high ≤ 0xBF
  completes : ∀ d ds, p.low ≤ d + 0x80 → d + 0x80 ≤ p.high → (d :: ds).length = p.missing →
    (∀ e ∈ d :: ds, e < 64) →
    String.utf8EncodeChar (Char.ofNat ((d :: ds).foldl (fun code e => code * 64 + e) p.code)) =
      read ++ (d :: ds).map fun e => UInt8.ofNat (e + 0x80)

/-- A first byte begins just the characters that it announces. -/
theorem lead?_begins {b : Nat} {p : Pending} (h : lead? b = some p) :
    p.Begins [UInt8.ofNat b] := by
  have htwo {c : Nat} (hc : 2 ≤ c) (hc' : c < 32) :
      Pending.Begins ⟨c + 0xC0, 1, 1, c, 0x80, 0xBF⟩ [UInt8.ofNat (c + 0xC0)] := by
    refine ⟨Nat.le_refl _, Nat.le_refl _, Nat.le_refl _, ?_⟩
    rintro d ds - - hlen hds
    cases List.eq_nil_of_length_eq_zero (Nat.succ.inj hlen)
    have hd : d < 64 := hds d (by simp)
    exact utf8EncodeChar_two (c := c) hd (by omega) (by omega)
  have hthree {c low high : Nat} (hc : c < 16) (h80 : 0x80 ≤ low) (hBF : high ≤ 0xBF)
      (hlow : 0x20 ≤ c * 64 + (low - 0x80))
      (hsurrogate : c * 64 + (high - 0x80) < 0x360 ∨ 0xD < c) :
      Pending.Begins ⟨c + 0xE0, 1, 2, c, low, high⟩ [UInt8.ofNat (c + 0xE0)] := by
    refine ⟨by simp, h80, hBF, ?_⟩
    intro d ds hdlow hdhigh hlen hds
    obtain ⟨e, rfl⟩ := List.length_eq_one_iff.mp (Nat.succ.inj hlen)
    have hd : d < 64 := hds d (by simp)
    have he : e < 64 := hds e (by simp)
    dsimp only at hdlow hdhigh
    exact utf8EncodeChar_three (c := c) hd he (by omega) (by omega) (by omega)
  have hfour {c low high : Nat} (h80 : 0x80 ≤ low) (hBF : high ≤ 0xBF)
      (hlow : 0x10 ≤ c * 64 + (low - 0x80))
      (hhigh : c * 64 + (high - 0x80) < 0x110) :
      Pending.Begins ⟨c + 0xF0, 1, 3, c, low, high⟩ [UInt8.ofNat (c + 0xF0)] := by
    refine ⟨by simp, h80, hBF, ?_⟩
    intro d ds hdlow hdhigh hlen hds
    obtain ⟨e, f, rfl⟩ := List.length_eq_two.mp (Nat.succ.inj hlen)
    have hd : d < 64 := hds d (by simp)
    have he : e < 64 := hds e (by simp)
    have hf : f < 64 := hds f (by simp)
    dsimp only at hdlow hdhigh
    exact utf8EncodeChar_four (c := c) hd he hf (by omega) (by omega)
  unfold lead? at h
  simp only [Bool.and_eq_true, decide_eq_true_eq, beq_iff_eq] at h
  split at h
  · obtain ⟨c, rfl⟩ : ∃ c, b = c + 0xC0 := ⟨b - 0xC0, by omega⟩
    cases h
    rw [Nat.add_sub_cancel]
    exact htwo (by omega) (by omega)
  split at h
  · next hb =>
    cases h
    cases hb
    exact hthree (c := 0) (by decide) (by decide) (by decide) (by decide) (by decide)
  split at h
  · next hb =>
    cases h
    cases hb
    exact hthree (c := 0xD) (by decide) (by decide) (by decide) (by decide) (by decide)
  split at h
  · obtain ⟨c, rfl⟩ : ∃ c, b = c + 0xE0 := ⟨b - 0xE0, by omega⟩
    cases h
    rw [Nat.add_sub_cancel]
    exact hthree (by omega) (by decide) (by decide) (by omega) (by omega)
  split at h
  · next hb =>
    cases h
    cases hb
    exact hfour (c := 0) (by decide) (by decide) (by decide) (by decide)
  split at h
  · obtain ⟨c, rfl⟩ : ∃ c, b = c + 0xF0 := ⟨b - 0xF0, by omega⟩
    cases h
    rw [Nat.add_sub_cancel]
    exact hfour (by decide) (by decide) (by omega) (by omega)
  split at h
  · next hb =>
    cases h
    cases hb
    exact hfour (c := 4) (by decide) (by decide) (by decide) (by decide)
  · cases h

/-- What a reader has made of the bytes so far: a fault that stays, or characters whose bytes they
are, with the beginning of one more at most. -/
inductive Reader.Accounts (bytes : List UInt8) (r : Reader) : Prop where
  | faulty (f : Fault) (h : Piece.fault f ∈ r.found)
  | between (cs : List Char) (hpending : r.pending = none)
      (hfound : r.found = (cs.map Piece.char).reverse)
      (hbytes : bytes = cs.flatMap String.utf8EncodeChar)
  | within (cs : List Char) (p : Pending) (read : List UInt8) (hpending : r.pending = some p)
      (hfound : r.found = (cs.map Piece.char).reverse)
      (hbytes : bytes = cs.flatMap String.utf8EncodeChar ++ read) (hbegins : p.Begins read)

namespace Reader

variable {bytes : List UInt8} {r : Reader}

theorem mem_found_begin {x : Piece} (h : x ∈ r.found) (b : Nat) : x ∈ (r.begin b).found := by
  unfold begin
  split
  · exact List.mem_cons_of_mem _ h
  · split
    · exact h
    · exact List.mem_cons_of_mem _ h

/-- What has been found stays. -/
theorem mem_found_step {x : Piece} (h : x ∈ r.found) (byte : UInt8) :
    x ∈ (r.step byte).found := by
  unfold step
  dsimp only
  split
  · exact mem_found_begin h _
  · split
    · split
      · exact List.mem_cons_of_mem _ h
      · exact h
    · exact mem_found_begin (List.mem_cons_of_mem _ h) _

theorem accounts_step (h : Accounts bytes r) (byte : UInt8) :
    Accounts (bytes ++ [byte]) (r.step byte) := by
  have hbyte : byte.toNat < 256 := byte.toNat_lt
  have hofNat : UInt8.ofNat byte.toNat = byte := UInt8.ofNat_toNat
  cases h with
  | faulty f h => exact .faulty f (mem_found_step h byte)
  | between cs hpending hfound hbytes =>
    unfold step
    rw [hpending]
    dsimp only
    unfold begin
    split
    · next hascii =>
      refine .between (cs ++ [Char.ofNat byte.toNat]) rfl ?_ ?_
      · simp [hfound]
      · simp [hbytes, utf8EncodeChar_one hascii, hofNat]
    · split
      · next p hlead =>
        exact .within cs p [byte] rfl hfound (by rw [hbytes]) (hofNat ▸ lead?_begins hlead)
      · exact .faulty _ List.mem_cons_self
  | within cs p read hpending hfound hbytes hbegins =>
    unfold step
    rw [hpending]
    dsimp only
    split
    · next hbounds =>
      rw [Bool.and_eq_true, decide_eq_true_eq, decide_eq_true_eq] at hbounds
      obtain ⟨hmissing, hlow, hhigh, hcompletes⟩ := hbegins
      obtain ⟨d, hd⟩ : ∃ d, byte.toNat = d + 0x80 := ⟨byte.toNat - 0x80, by omega⟩
      have hd64 : d < 64 := by omega
      have hbyteEq : byte = UInt8.ofNat (d + 0x80) := by rw [← hd, hofNat]
      rw [hd] at hbounds ⊢
      rw [Nat.add_sub_cancel]
      split
      · have hwritten := hcompletes d [] hbounds.1 hbounds.2 (by simp; omega) (by simpa using hd64)
        refine .between (cs ++ [Char.ofNat (p.code * 64 + d)]) rfl ?_ ?_
        · simp [hfound]
        · rw [List.foldl_cons, List.foldl_nil] at hwritten
          simp [hbytes, hwritten, hbyteEq]
      · refine .within cs _ (read ++ [byte]) rfl hfound (by rw [hbytes, List.append_assoc]) ?_
        refine ⟨by dsimp only; omega, Nat.le_refl _, Nat.le_refl _, ?_⟩
        intro e es _ _ hlength hes
        dsimp only at hlength
        have hall : ∀ x ∈ d :: e :: es, x < 64 := List.forall_mem_cons.mpr ⟨hd64, hes⟩
        have hwritten := hcompletes d (e :: es) hbounds.1 hbounds.2
          (by rw [List.length_cons, hlength]; omega) hall
        rw [List.foldl_cons] at hwritten
        rw [hwritten, hbyteEq]
        simp
    · exact .faulty _ (mem_found_begin List.mem_cons_self _)

theorem accounts_foldl (h : Accounts bytes r) (more : List UInt8) :
    Accounts (bytes ++ more) (more.foldl step r) := by
  induction more generalizing bytes r with
  | nil => rwa [List.append_nil]
  | cons byte more ih =>
    have hstep := ih (accounts_step h byte)
    rwa [List.append_assoc] at hstep

end Reader

variable {bytes : List UInt8}

theorem map_char_inj {cs ds : List Char} : cs.map Piece.char = ds.map Piece.char ↔ cs = ds :=
  (List.map_injective_iff.mpr fun _ _ h => Piece.char.inj h).eq_iff

theorem mapM_strict_eq_ok_iff {found : List Piece} {text : List Char} :
    found.mapM Piece.strict = .ok text ↔ found = text.map Piece.char := by
  induction found generalizing text with
  | nil =>
    cases text with
    | nil => exact iff_of_true rfl rfl
    | cons c text => exact iff_of_false nofun nofun
  | cons x found ih =>
    rw [List.mapM_cons]
    cases x with
    | fault f =>
      refine iff_of_false nofun ?_
      cases text <;> nofun
    | char c =>
      change (found.mapM Piece.strict >>= fun cs => .ok (c :: cs)) = .ok text ↔ _
      cases hfound : found.mapM Piece.strict with
      | error f =>
        refine iff_of_false nofun ?_
        cases text with
        | nil => nofun
        | cons c' text =>
          intro h
          cases hfound.symm.trans (ih.mpr (List.cons.inj h).2)
      | ok cs =>
        rw [ih.mp hfound]
        cases text with
        | nil => exact iff_of_false nofun nofun
        | cons c' text => simp [bind, Except.bind, map_char_inj]

/-- The bytes that can be read strictly are those of a text, and are read as this text. -/
theorem decode?_eq_ok_iff {text : List Char} :
    decode? bytes = .ok text ↔ bytes = text.flatMap String.utf8EncodeChar := by
  unfold decode?
  rw [mapM_strict_eq_ok_iff]
  constructor
  · intro h
    have hfault (f : Fault) : .fault f ∉ pieces bytes := by
      rw [h]
      simp
    unfold pieces at h hfault
    have hstart : Reader.Accounts [] ⟨0, none, []⟩ := .between [] rfl rfl rfl
    cases Reader.accounts_foldl hstart bytes with
    | faulty f hmem =>
      refine absurd ?_ (hfault f)
      unfold Reader.finish
      split
      · exact List.mem_reverse.mpr hmem
      · exact List.mem_reverse.mpr (List.mem_cons_of_mem _ hmem)
    | between cs hpending hfound hbytes =>
      unfold Reader.finish at h
      rw [hpending, hfound, List.reverse_reverse] at h
      rw [← map_char_inj.mp h, ← hbytes, List.nil_append]
    | within cs p read hpending =>
      unfold Reader.finish at hfault
      rw [hpending] at hfault
      exact absurd (List.mem_reverse.mpr List.mem_cons_self) (hfault _)
  · rintro rfl
    exact pieces_flatMap text

end Waterjet.Text.Utf8
