import NodeSchema.Proofs.Text.Utf8
import NodeSchema.Text.Newlines

/-!
# Texts that are written and read again

A text file is read with unified line ends, so a text without carriage returns is read as it was
written (`readText?_bytesOf`).
-/

set_option autoImplicit false

namespace NodeSchema
namespace Text

/-! ## Bytes -/

theorem decodeAfter?_eq_decode? (skip : Nat) (bs : List UInt8) :
    decodeAfter? skip bs = decode? (bs.drop skip) := by
  induction bs generalizing skip with
  | nil =>
    rw [List.drop_nil]
    cases skip <;> rfl
  | cons b bs ih =>
    cases skip with
    | zero => rfl
    | succ skip => exact ih skip

/-- What was written as UTF-8 is well-formed and read back. -/
theorem decode?_encode (cs : List Char) : decode? (encode cs) = some cs := by
  induction cs with
  | nil => rfl
  | cons c cs ih =>
    obtain ⟨b, bs, hbytes, -, hread⟩ := readOne_encodeChar c (encode cs)
    have hlength : (encodeChar c).length - 1 = bs.length := by
      rw [hbytes, List.length_cons, Nat.add_sub_cancel]
    rw [encode, List.flatMap_cons, ← encode, hbytes, List.cons_append, decode?, decodeAfter?, hread]
    dsimp only
    rw [decodeAfter?_eq_decode?, hlength, List.drop_left, ih]
    rfl

theorem utf8EncodeChar_eq (c : Char) : String.utf8EncodeChar c = encodeChar c := by
  have hlt : c.val.toNat < 0x110000 := by
    have hvalid : c.toNat < 0xD800 ∨ 0xDFFF < c.toNat ∧ c.toNat < 0x110000 := c.valid
    show c.toNat < 0x110000
    omega
  rw [String.utf8EncodeChar, encodeChar, Char.toNat]
  generalize c.val.toNat = n at hlt
  by_cases h1 : n < 0x80
  · rw [if_pos h1, if_pos (by omega)]
  rw [if_neg h1, if_neg (by omega)]
  by_cases h2 : n < 0x800
  · rw [if_pos h2, if_pos (by omega), Nat.mod_eq_of_lt (by omega), Nat.add_comm, Nat.add_comm 0x80]
  rw [if_neg h2, if_neg (by omega)]
  by_cases h3 : n < 0x10000
  · rw [if_pos h3, if_pos (by omega), Nat.mod_eq_of_lt (a := n / 4096) (by omega),
      Nat.add_comm (n / 4096), Nat.add_comm (n / 64 % 64), Nat.add_comm (n % 64)]
  · rw [if_neg h3, if_neg (by omega), Nat.mod_eq_of_lt (a := n / 262144) (by omega),
      Nat.add_comm (n / 262144), Nat.add_comm (n / 4096 % 64), Nat.add_comm (n / 64 % 64),
      Nat.add_comm (n % 64)]

theorem toList_loop (bs : ByteArray) (i : Nat) (r : List UInt8) :
    ByteArray.toList.loop bs i r = r.reverse ++ bs.data.toList.drop i := by
  rw [ByteArray.toList.loop.eq_def]
  split
  · next hi =>
    have hget : bs.data.toList.drop i = bs.get! i :: bs.data.toList.drop (i + 1) := by
      rw [List.drop_eq_getElem_cons hi]
      congr 1
      show bs.data.toList[i] = bs.data[i]!
      rw [getElem!_pos bs.data i hi, Array.getElem_toList]
    rw [toList_loop bs (i + 1), hget, List.reverse_cons, List.append_assoc, List.singleton_append]
  · next hi =>
    rw [List.drop_eq_nil_of_le (Nat.le_of_not_lt hi), List.append_nil]
termination_by bs.size - i

/-- The bytes of a string. -/
theorem toList_toUTF8 (s : String) : s.toUTF8.toList = bytesOf s := by
  have hbytes : s.toUTF8.toList = s.toByteArray.data.toList := toList_loop s.toByteArray 0 []
  have hencode : String.utf8EncodeChar = encodeChar := funext utf8EncodeChar_eq
  rw [hbytes, ← String.utf8Encode_toList, List.utf8Encode, List.toList_data_toByteArray, hencode]
  rfl

/-! ## Line ends -/

theorem unifyNewlines_eq_self {cs : List Char} (h : '\r' ∉ cs) : unifyNewlines cs = cs := by
  fun_induction unifyNewlines cs with
  | case1 => exact absurd List.mem_cons_self h
  | case2 c rest _ ih =>
    obtain ⟨hc, hrest⟩ := List.ne_and_not_mem_of_not_mem_cons h
    rw [if_neg hc.symm, ih hrest]
  | case3 => rfl

/-- **A text without carriage returns is read as it was written.** -/
theorem readText?_bytesOf {s : String} (h : '\r' ∉ s.toList) :
    readText? (bytesOf s) = some s.toList := by
  rw [readText?, bytesOf, decode?_encode, Option.map_some, unifyNewlines_eq_self h]

end Text
end NodeSchema
