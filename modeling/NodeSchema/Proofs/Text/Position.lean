import Mathlib.Data.List.Induction
import NodeSchema.Proofs.Text.Boundary
import NodeSchema.Text.Position

/-!
# The order of places

A later offset has a later line and column, or the same ones (`not_before_inBytes`).  More bytes on
a line are at least as many characters (`length_decode_le_append`): a character that the end of a
line cuts off counts as one in any case.

A place is the same whether characters or bytes are counted (`inBytes_encode`), and of two offsets
where characters begin in a well-formed text, the later one has the later place
(`before_inBytes_iff`).
-/

set_option autoImplicit false

namespace NodeSchema
namespace Text

/-! ## Characters of a front part -/

/-- What follows does not change a reading that ends before the text does. -/
theorem readOne_append_of_width_le {b : UInt8} {bs : List UInt8}
    (h : (readOne b bs).width ≤ bs.length) (later : List UInt8) :
    readOne b (bs ++ later) = readOne b bs := by
  rcases bs with _ | ⟨c, _ | ⟨d, _ | ⟨e, bs⟩⟩⟩
  · exact absurd h (Nat.not_le.mpr (readOne_width b []).1)
  · revert h
    simp only [readOne, List.cons_append, List.nil_append]
    repeat' split
    all_goals simp [Reading.width]
  · revert h
    simp only [readOne, List.cons_append, List.nil_append]
    repeat' split
    all_goals simp [Reading.width]
  · rfl

/-- The front part of a text has no more characters than the text. -/
theorem length_decode_le_append (bs later : List UInt8) :
    (decode bs).length ≤ (decode (bs ++ later)).length := by
  induction hn : bs.length using Nat.strongRecOn generalizing bs with
  | ind n ih =>
    subst hn
    cases bs with
    | nil => exact Nat.zero_le _
    | cons b bs =>
      have hwidth := readOne_width b bs
      rw [List.cons_append, decode_cons, decode_cons, List.length_cons, List.length_cons]
      by_cases hends : (readOne b bs).width ≤ bs.length
      · have hshort := ih (bs.drop ((readOne b bs).width - 1)).length
          (by rw [List.length_drop, List.length_cons]; omega) _ rfl
        rw [readOne_append_of_width_le hends, List.drop_append_of_le_length (by omega)]
        omega
      · -- The character takes all of the front part, and may go on behind it.
        rw [List.drop_of_length_le (l := bs) (by omega)]
        exact Nat.succ_le_succ (Nat.zero_le _)

/-! ## Lines -/

theorem lastLine_append {α : Type} [BEq α] [LawfulBEq α] {newline : α} (text : List α)
    {later : List α} (h : newline ∉ later) :
    lastLine newline (text ++ later) = lastLine newline text ++ later := by
  rw [lastLine, List.reverse_append, List.takeWhile_append_of_pos, List.reverse_append,
    List.reverse_reverse, lastLine]
  intro x hx
  have hne : x ≠ newline := fun heq ↦ h (heq ▸ List.mem_reverse.mp hx)
  simp [hne]

theorem lastLine_concat {α : Type} [BEq α] [LawfulBEq α] (newline : α) (text : List α) :
    lastLine newline (text ++ [newline]) = [] := by
  rw [lastLine, List.reverse_concat, List.takeWhile_cons_of_neg (by simp)]
  rfl

/-- Only a line feed is written with the byte of a line feed. -/
theorem mem_encodeChar_iff {c : Char} : 10 ∈ encodeChar c ↔ c = '\n' := by
  constructor
  · intro h
    obtain ⟨b, bs, hbytes, -, hread⟩ := readOne_encodeChar c []
    rw [hbytes] at h
    rcases List.mem_cons.mp h with rfl | h
    · exact (Reading.scalar.inj hread).1.symm
    · have hgoes := isContinuation_of_mem_tail (c := c) 10 (by rw [hbytes]; exact h)
      cases hgoes
  · rintro rfl
    exact List.mem_cons_self

theorem count_encode (cs : List Char) : (encode cs).count 10 = cs.count '\n' := by
  induction cs with
  | nil => rfl
  | cons c cs ih =>
    rw [encode, List.flatMap_cons, ← encode, List.count_append, ih]
    by_cases hc : c = '\n'
    · subst hc
      rw [List.count_cons_self, Nat.add_comm]
      rfl
    · rw [List.count_eq_zero_of_not_mem (mt mem_encodeChar_iff.mp hc), Nat.zero_add,
        List.count_cons_of_ne hc]

theorem lastLine_encode (cs : List Char) :
    lastLine 10 (encode cs) = encode (lastLine '\n' cs) := by
  induction cs using List.reverseRecOn with
  | nil => rfl
  | append_singleton cs c ih =>
    have hchar : encode [c] = encodeChar c := List.append_nil _
    by_cases hc : c = '\n'
    · subst hc
      rw [encode_append, lastLine_concat]
      exact lastLine_concat 10 (encode cs)
    · have hbyte : 10 ∉ encode [c] := by
        rw [hchar]
        exact mt mem_encodeChar_iff.mp hc
      rw [encode_append, lastLine_append _ hbyte, ih, lastLine_append _ (by simpa using Ne.symm hc),
        encode_append]

/-! ## Lines and columns -/

namespace Position

theorem not_before_self (p : Position) : ¬ p.before p := by
  rw [before]
  omega

theorem eq_of_not_before {p q : Position} (h : ¬ p.before q) (h' : ¬ q.before p) : p = q := by
  obtain ⟨line, column⟩ := p
  obtain ⟨line', column'⟩ := q
  simp only [before] at h h'
  congr <;> omega

/-- **A later offset has no earlier place.** -/
theorem not_before_inBytes (bytes : List UInt8) {m n : Nat} (h : m ≤ n) :
    ¬ (inBytes bytes n).before (inBytes bytes m) := by
  obtain ⟨later, hlater⟩ : ∃ later, bytes.take n = bytes.take m ++ later :=
    ⟨_, by rw [← Nat.add_sub_cancel' h, List.take_add]⟩
  simp only [inBytes, before, hlater, List.count_append]
  by_cases hline : 10 ∈ later
  · have hcount := List.count_pos_iff.mpr hline
    omega
  · have hlength := length_decode_le_append (lastLine 10 (bytes.take m)) later
    rw [lastLine_append _ hline, List.count_eq_zero_of_not_mem hline]
    omega

/-- A character that is cut off counts as one, before its line ends and where the text does. -/
example : inBytes [0x61, 0xE2, 0x82, 0x0A, 0xE2] 3 = ⟨1, 3⟩ ∧
    inBytes [0x61, 0xE2, 0x82, 0x0A, 0xE2] 5 = ⟨2, 2⟩ := by decide

/-- A later character has a later place. -/
theorem before_inChars {cs : List Char} {m n : Nat} (h : m < n) (hn : n ≤ cs.length) :
    (inChars cs m).before (inChars cs n) := by
  obtain ⟨later, hlater⟩ : ∃ later, cs.take n = cs.take m ++ later :=
    ⟨_, by rw [← Nat.add_sub_cancel' (Nat.le_of_lt h), List.take_add]⟩
  have hlength := congrArg List.length hlater
  rw [List.length_append, List.length_take_of_le hn,
    List.length_take_of_le (Nat.le_trans (Nat.le_of_lt h) hn)] at hlength
  simp only [inChars, before, hlater, List.count_append]
  by_cases hline : '\n' ∈ later
  · have hcount := List.count_pos_iff.mpr hline
    omega
  · rw [lastLine_append _ hline, List.count_eq_zero_of_not_mem hline, List.length_append]
    omega

/-- **A place is the same in characters and in bytes.** -/
theorem inBytes_encode (front rest : List Char) :
    inBytes (encode (front ++ rest)) (encode front).length =
      inChars (front ++ rest) front.length := by
  rw [inBytes, inChars, encode_append, List.take_left, List.take_left, count_encode,
    lastLine_encode, decode_encode, List.length_map]

/-- **Where characters begin, places are in the order of the offsets.** -/
theorem before_inBytes_iff {bytes : List UInt8} {cs : List Char} (h : decode? bytes = some cs)
    {m n : Nat} (hm : IsBoundary bytes m) (hn : IsBoundary bytes n) :
    (inBytes bytes m).before (inBytes bytes n) ↔ m < n := by
  constructor
  · exact fun hbefore ↦ Nat.lt_of_not_le fun hle ↦ not_before_inBytes bytes hle hbefore
  · intro hlt
    obtain rfl := decode?_eq_some_iff.mp h
    obtain ⟨front, rest, rfl, rfl⟩ := isBoundary_encode_iff.mp hm
    obtain ⟨front', rest', hcs, rfl⟩ := isBoundary_encode_iff.mp hn
    have hshort : front.length < front'.length := by
      refine Nat.lt_of_not_le fun hle ↦ ?_
      obtain ⟨more, rfl⟩ := List.prefix_of_prefix_length_le ⟨rest', hcs.symm⟩ ⟨rest, rfl⟩ hle
      rw [encode_append, List.length_append] at hlt
      omega
    have hend : front'.length ≤ (front ++ rest).length := by
      rw [hcs, List.length_append]
      exact Nat.le_add_right _ _
    have hplace := before_inChars hshort hend
    rwa [← inBytes_encode, hcs, ← inBytes_encode, ← hcs] at hplace

end Position
end Text
end NodeSchema
