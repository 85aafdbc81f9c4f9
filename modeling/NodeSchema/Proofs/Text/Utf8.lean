import Mathlib.Data.Bool.Basic
import NodeSchema.Text.Utf8

/-!
# Bytes and characters, piece by piece

Bytes are read as characters from the front.  What was written as UTF-8 is read back
(`decode_encode`), and bytes that are read as a character are those that it is written in
(`encodeChar_of_readOne`).
-/

set_option autoImplicit false

namespace NodeSchema
namespace Text

/-! ## One character -/

theorem width_glyph (r : Reading) : r.glyph.width = r.width := by
  cases r <;> rfl

theorem isContinuation_of_secondOfThree {first second : Nat}
    (h : secondOfThree first second = true) : isContinuation second = true := by
  rw [isContinuation, Bool.and_eq_true, decide_eq_true_eq, decide_eq_true_eq]
  rw [secondOfThree] at h
  split at h
  · simp only [Bool.and_eq_true, decide_eq_true_eq] at h
    omega
  · split at h
    · simp only [Bool.and_eq_true, decide_eq_true_eq] at h
      omega
    · simpa [isContinuation] using h

theorem isContinuation_of_secondOfFour {first second : Nat}
    (h : secondOfFour first second = true) : isContinuation second = true := by
  rw [isContinuation, Bool.and_eq_true, decide_eq_true_eq, decide_eq_true_eq]
  rw [secondOfFour] at h
  split at h
  · simp only [Bool.and_eq_true, decide_eq_true_eq] at h
    omega
  · split at h
    · simp only [Bool.and_eq_true, decide_eq_true_eq] at h
      omega
    · simpa [isContinuation] using h

/-- The bytes do not begin in the middle of a character. -/
def IsClean (bs : List UInt8) : Prop := ∀ b ∈ bs.head?, isContinuation b.toNat = false

theorem isClean_nil : IsClean [] := nofun

/-! ## Decoding -/

theorem decodeAfter_eq_decode (skip : Nat) (bs : List UInt8) :
    decodeAfter skip bs = decode (bs.drop skip) := by
  induction bs generalizing skip with
  | nil => cases skip <;> rfl
  | cons b bs ih =>
    cases skip with
    | zero => rfl
    | succ skip => exact ih skip

theorem decode_cons (b : UInt8) (bs : List UInt8) :
    decode (b :: bs) = (readOne b bs).glyph :: decode (bs.drop ((readOne b bs).width - 1)) := by
  rw [← decodeAfter_eq_decode]
  rfl

theorem bytesIn_append (gs hs : List Glyph) : bytesIn (gs ++ hs) = bytesIn gs + bytesIn hs := by
  induction gs with
  | nil => exact (Nat.zero_add _).symm
  | cons g gs ih =>
    show g.width + bytesIn (gs ++ hs) = g.width + bytesIn gs + bytesIn hs
    rw [ih, Nat.add_assoc]

/-! ## Writing -/

theorem toNat_ofNat_of_lt {n : Nat} (h : n < 256) : (UInt8.ofNat n).toNat = n := by
  rw [UInt8.toNat_ofNat']
  exact Nat.mod_eq_of_lt h

/-- What is written for a character is read back. -/
theorem readOne_encodeChar (c : Char) (later : List UInt8) :
    ∃ b bs, encodeChar c = b :: bs ∧ isContinuation b.toNat = false ∧
      readOne b (bs ++ later) = .scalar c (encodeChar c).length := by
  have hvalid : c.toNat < 0xD800 ∨ 0xDFFF < c.toNat ∧ c.toNat < 0x110000 := c.valid
  have hback : Char.ofNat c.toNat = c := Char.ofNat_toNat c
  rw [encodeChar]
  generalize c.toNat = n at hvalid hback
  subst hback
  by_cases h1 : n < 0x80
  · refine ⟨UInt8.ofNat n, [], if_pos h1, ?_⟩
    have hb : (UInt8.ofNat n).toNat = n := toNat_ofNat_of_lt (by omega)
    rw [if_pos h1, hb]
    refine ⟨?_, ?_⟩
    · rw [isContinuation, decide_eq_false (by omega), Bool.false_and]
    · simp only [readOne, hb, if_pos h1]
      rfl
  rw [if_neg h1]
  by_cases h2 : n < 0x800
  · rw [if_pos h2]
    refine ⟨_, _, rfl, ?_⟩
    have hb : (UInt8.ofNat (0xC0 + n / 64)).toNat = 0xC0 + n / 64 := toNat_ofNat_of_lt (by omega)
    have hc : (UInt8.ofNat (0x80 + n % 64)).toNat = 0x80 + n % 64 := toNat_ofNat_of_lt (by omega)
    have hvalue : (0xC0 + n / 64 - 0xC0) * 64 + (0x80 + n % 64 - 0x80) = n := by omega
    simp only [readOne, List.cons_append, hb, hc, isContinuation, hvalue]
    grind
  rw [if_neg h2]
  by_cases h3 : n < 0x10000
  · rw [if_pos h3]
    refine ⟨_, _, rfl, ?_⟩
    have hb : (UInt8.ofNat (0xE0 + n / 4096)).toNat = 0xE0 + n / 4096 :=
      toNat_ofNat_of_lt (by omega)
    have hc : (UInt8.ofNat (0x80 + n / 64 % 64)).toNat = 0x80 + n / 64 % 64 :=
      toNat_ofNat_of_lt (by omega)
    have hd : (UInt8.ofNat (0x80 + n % 64)).toNat = 0x80 + n % 64 := toNat_ofNat_of_lt (by omega)
    have hvalue : (0xE0 + n / 4096 - 0xE0) * 4096 + (0x80 + n / 64 % 64 - 0x80) * 64 +
        (0x80 + n % 64 - 0x80) = n := by omega
    simp only [readOne, List.cons_append, hb, hc, hd, isContinuation, secondOfThree, hvalue]
    grind
  · rw [if_neg h3]
    refine ⟨_, _, rfl, ?_⟩
    have hb : (UInt8.ofNat (0xF0 + n / 262144)).toNat = 0xF0 + n / 262144 :=
      toNat_ofNat_of_lt (by omega)
    have hc : (UInt8.ofNat (0x80 + n / 4096 % 64)).toNat = 0x80 + n / 4096 % 64 :=
      toNat_ofNat_of_lt (by omega)
    have hd : (UInt8.ofNat (0x80 + n / 64 % 64)).toNat = 0x80 + n / 64 % 64 :=
      toNat_ofNat_of_lt (by omega)
    have he : (UInt8.ofNat (0x80 + n % 64)).toNat = 0x80 + n % 64 := toNat_ofNat_of_lt (by omega)
    have hvalue : (0xF0 + n / 262144 - 0xF0) * 262144 + (0x80 + n / 4096 % 64 - 0x80) * 4096 +
        (0x80 + n / 64 % 64 - 0x80) * 64 + (0x80 + n % 64 - 0x80) = n := by omega
    simp only [readOne, List.cons_append, hb, hc, hd, he, isContinuation, secondOfFour, hvalue]
    grind

/-- **What was written as UTF-8 is read back.** -/
theorem decode_encode (cs : List Char) :
    decode (encode cs) = cs.map fun c ↦ ⟨c, (encodeChar c).length⟩ := by
  induction cs with
  | nil => rfl
  | cons c cs ih =>
    obtain ⟨b, bs, hbytes, -, hread⟩ := readOne_encodeChar c (encode cs)
    rw [encode, List.flatMap_cons, ← encode, hbytes, List.cons_append, decode_cons, hread, hbytes]
    show _ :: decode ((bs ++ encode cs).drop bs.length) = _
    rw [List.drop_left, ih, List.map_cons, hbytes]
    rfl

theorem chars_bytesOf (s : String) : chars (bytesOf s) = s.toList := by
  rw [chars, bytesOf, decode_encode, List.map_map]
  exact List.map_id s.toList

/-! ## What is read is what is written -/

section

variable {b c d e : UInt8} {bs : List UInt8} {n : Nat}

theorem isContinuation_iff : isContinuation n = true ↔ 0x80 ≤ n ∧ n < 0xC0 := by
  rw [isContinuation, Bool.and_eq_true, decide_eq_true_eq, decide_eq_true_eq]

theorem bounds_of_secondOfThree {first second : Nat} (h : secondOfThree first second = true) :
    (0x80 ≤ second ∧ second < 0xC0) ∧ (first = 0xE0 → 0xA0 ≤ second) ∧
      (first = 0xED → second < 0xA0) := by
  refine ⟨isContinuation_iff.mp (isContinuation_of_secondOfThree h), ?_, ?_⟩
  · rintro rfl
    have hsecond : 0xA0 ≤ second ∧ second < 0xC0 := by simpa [secondOfThree] using h
    exact hsecond.1
  · rintro rfl
    have hsecond : 0x80 ≤ second ∧ second < 0xA0 := by simpa [secondOfThree] using h
    exact hsecond.2

theorem bounds_of_secondOfFour {first second : Nat} (h : secondOfFour first second = true) :
    (0x80 ≤ second ∧ second < 0xC0) ∧ (first = 0xF0 → 0x90 ≤ second) ∧
      (first = 0xF4 → second < 0x90) := by
  refine ⟨isContinuation_iff.mp (isContinuation_of_secondOfFour h), ?_, ?_⟩
  · rintro rfl
    have hsecond : 0x90 ≤ second ∧ second < 0xC0 := by simpa [secondOfFour] using h
    exact hsecond.1
  · rintro rfl
    have hsecond : 0x80 ≤ second ∧ second < 0x90 := by simpa [secondOfFour] using h
    exact hsecond.2

theorem toNat_ofNat_of_isValidChar (h : n.isValidChar) : (Char.ofNat n).toNat = n := by
  rw [Char.ofNat, dif_pos h]
  rfl

theorem ofNat_eq_of_eq_toNat (h : n = b.toNat) : UInt8.ofNat n = b := by
  rw [h, UInt8.ofNat_toNat]

theorem encodeChar_one (hb : b.toNat < 0x80) : encodeChar (Char.ofNat b.toNat) = [b] := by
  rw [encodeChar, toNat_ofNat_of_isValidChar (.inl (by omega)), if_pos hb, UInt8.ofNat_toNat]

theorem encodeChar_two (hb : 0xC2 ≤ b.toNat) (hb' : b.toNat < 0xE0)
    (hc : isContinuation c.toNat = true) :
    encodeChar (Char.ofNat ((b.toNat - 0xC0) * 64 + (c.toNat - 0x80))) = [b, c] := by
  obtain ⟨hc, hc'⟩ := isContinuation_iff.mp hc
  rw [encodeChar, toNat_ofNat_of_isValidChar (.inl (by omega)), if_neg (by omega),
    if_pos (by omega), ofNat_eq_of_eq_toNat (b := b) (by omega),
    ofNat_eq_of_eq_toNat (b := c) (by omega)]

theorem encodeChar_three (hb : 0xE0 ≤ b.toNat) (hb' : b.toNat < 0xF0)
    (hc : secondOfThree b.toNat c.toNat = true) (hd : isContinuation d.toNat = true) :
    encodeChar (Char.ofNat ((b.toNat - 0xE0) * 4096 + (c.toNat - 0x80) * 64 +
      (d.toNat - 0x80))) = [b, c, d] := by
  obtain ⟨hc, hlow, hhigh⟩ := bounds_of_secondOfThree hc
  obtain ⟨hd, hd'⟩ := isContinuation_iff.mp hd
  have hvalid : ((b.toNat - 0xE0) * 4096 + (c.toNat - 0x80) * 64 +
      (d.toNat - 0x80)).isValidChar := by
    rw [Nat.isValidChar]
    omega
  rw [encodeChar, toNat_ofNat_of_isValidChar hvalid, if_neg (by omega), if_neg (by omega),
    if_pos (by omega), ofNat_eq_of_eq_toNat (b := b) (by omega),
    ofNat_eq_of_eq_toNat (b := c) (by omega), ofNat_eq_of_eq_toNat (b := d) (by omega)]

theorem encodeChar_four (hb : 0xF0 ≤ b.toNat) (hb' : b.toNat < 0xF5)
    (hc : secondOfFour b.toNat c.toNat = true) (hd : isContinuation d.toNat = true)
    (he : isContinuation e.toNat = true) :
    encodeChar (Char.ofNat ((b.toNat - 0xF0) * 262144 + (c.toNat - 0x80) * 4096 +
      (d.toNat - 0x80) * 64 + (e.toNat - 0x80))) = [b, c, d, e] := by
  obtain ⟨hc, hlow, hhigh⟩ := bounds_of_secondOfFour hc
  obtain ⟨hd, hd'⟩ := isContinuation_iff.mp hd
  obtain ⟨he, he'⟩ := isContinuation_iff.mp he
  rw [encodeChar, toNat_ofNat_of_isValidChar (.inr (by omega)), if_neg (by omega),
    if_neg (by omega), if_neg (by omega), ofNat_eq_of_eq_toNat (b := b) (by omega),
    ofNat_eq_of_eq_toNat (b := c) (by omega), ofNat_eq_of_eq_toNat (b := d) (by omega),
    ofNat_eq_of_eq_toNat (b := e) (by omega)]

/-- Bytes that are read as a character are the bytes that it is written in. -/
theorem encodeChar_of_readOne {x : Char} (h : readOne b bs = .scalar x n) :
    encodeChar x = (b :: bs).take n := by
  revert h
  simp only [readOne]
  repeat' split
  all_goals
    simp only [Reading.scalar.injEq, reduceCtorEq, false_implies]
  all_goals
    rintro ⟨rfl, rfl⟩
  · exact encodeChar_one ‹_›
  · exact encodeChar_two (by omega) (by omega) ‹_›
  · exact encodeChar_three (by omega) (by omega) ‹_› ‹_›
  · exact encodeChar_four (by omega) (by omega) ‹_› ‹_› ‹_›

/-- A character that was read takes as many bytes as it is written in. -/
theorem length_encodeChar_of_readOne {x : Char} (h : readOne b bs = .scalar x n) :
    n = (encodeChar x).length := by
  have hwidth := (readOne_width b bs).2
  rw [h] at hwidth
  rw [encodeChar_of_readOne h, List.length_take]
  exact (Nat.min_eq_left hwidth).symm

end

/-! ## Characters that are not replaced -/

theorem width_of_mem_decode {bs : List UInt8} {g : Glyph} (h : g ∈ decode bs)
    (hg : g.char ≠ replacement) : g.width = (encodeChar g.char).length := by
  have hafter (skip : Nat) (hskip : g ∈ decodeAfter skip bs) :
      g.width = (encodeChar g.char).length := by
    clear h
    induction bs generalizing skip with
    | nil => cases hskip
    | cons b bs ih =>
      cases skip with
      | succ skip => exact ih skip hskip
      | zero =>
        rcases List.mem_cons.mp hskip with rfl | hskip
        · cases hread : readOne b bs with
          | scalar c n => exact length_encodeChar_of_readOne hread
          | broken n =>
            rw [hread] at hg
            exact absurd rfl hg
        · exact ih _ hskip
  exact hafter 0 h

/-- Characters that are all as they were written take the bytes that they are written in. -/
theorem bytesIn_of_mem_decode {bs : List UInt8} {gs : List Glyph} (h : ∀ g ∈ gs, g ∈ decode bs)
    (hgs : ∀ g ∈ gs, g.char ≠ replacement) :
    bytesIn gs = (encode (gs.map Glyph.char)).length := by
  induction gs with
  | nil => rfl
  | cons g gs ih =>
    have hwidth := width_of_mem_decode (h g List.mem_cons_self) (hgs g List.mem_cons_self)
    show g.width + bytesIn gs = _
    rw [ih (fun g' hg' ↦ h g' (List.mem_cons_of_mem g hg'))
      (fun g' hg' ↦ hgs g' (List.mem_cons_of_mem g hg')), List.map_cons, encode, encode,
      List.flatMap_cons, List.length_append, hwidth]

end Text
end NodeSchema
