import NodeSchema.Proofs.Text.Newlines

/-!
# Where characters begin

A character begins at an offset in bytes, or the text ends there, if no byte at the offset goes on
with a character (`IsBoundary`).  The well-formed texts are those that writing gives
(`decode?_eq_some_iff`), and in one of them the boundaries are the ends of its front parts
(`isBoundary_encode_iff`).
-/

set_option autoImplicit false

namespace NodeSchema
namespace Text

/-! ## Well-formed texts -/

theorem encode_append (cs ds : List Char) : encode (cs ++ ds) = encode cs ++ encode ds :=
  List.flatMap_append

theorem bytesOf_append (s t : String) : bytesOf (s ++ t) = bytesOf s ++ bytesOf t := by
  rw [bytesOf, String.toList_append, encode_append]
  rfl

theorem decode?_eq_some_cons {b : UInt8} {bs : List UInt8} {cs : List Char}
    (h : decode? (b :: bs) = some cs) : ∃ c n ds, readOne b bs = .scalar c (n + 1) ∧
      decode? (bs.drop n) = some ds ∧ cs = c :: ds := by
  have hwidth := (readOne_width b bs).1
  rw [decode?, decodeAfter?] at h
  cases hread : readOne b bs with
  | broken n => rw [hread] at h; cases h
  | scalar c n =>
    rw [hread] at h hwidth
    obtain ⟨n, rfl⟩ := Nat.exists_eq_add_of_le' hwidth
    obtain ⟨ds, hds, rfl⟩ := Option.map_eq_some_iff.mp h
    rw [Nat.add_sub_cancel, decodeAfter?_eq_decode?] at hds
    exact ⟨c, n, ds, rfl, hds, rfl⟩

/-- **The well-formed texts are those that are written as UTF-8.** -/
theorem decode?_eq_some_iff {bytes : List UInt8} {cs : List Char} :
    decode? bytes = some cs ↔ bytes = encode cs := by
  refine ⟨fun h ↦ ?_, fun h ↦ h ▸ decode?_encode cs⟩
  induction hn : bytes.length using Nat.strongRecOn generalizing bytes cs with
  | ind n ih =>
    subst hn
    cases bytes with
    | nil =>
      obtain rfl := Option.some.inj h
      rfl
    | cons b bs =>
      obtain ⟨c, n, ds, hread, hds, rfl⟩ := decode?_eq_some_cons h
      have hrest := ih _ (by rw [List.length_drop, List.length_cons]; omega) hds rfl
      rw [encode, List.flatMap_cons, encodeChar_of_readOne hread, ← encode, ← hrest,
        List.take_succ_cons, List.cons_append, List.take_append_drop]

/-! ## Boundaries -/

/-- A character begins at the offset, or the bytes end there. -/
def IsBoundary (bytes : List UInt8) (offset : Nat) : Prop :=
  offset ≤ bytes.length ∧ IsClean (bytes.drop offset)

theorem isContinuation_ofNat (n : Nat) :
    isContinuation (UInt8.ofNat (0x80 + n % 64)).toNat = true := by
  rw [toNat_ofNat_of_lt (by omega), isContinuation_iff]
  omega

/-- The bytes of a character after its first go on with it. -/
theorem isContinuation_of_mem_tail {c : Char} :
    ∀ x ∈ (encodeChar c).tail, isContinuation x.toNat = true := by
  rw [encodeChar]
  intro x hx
  split at hx
  · cases hx
  split at hx
  · obtain rfl := List.mem_singleton.mp hx
    exact isContinuation_ofNat _
  split at hx
  all_goals
    simp only [List.tail_cons, List.mem_cons, List.not_mem_nil, or_false] at hx
    rcases hx with rfl | rfl | rfl
    all_goals exact isContinuation_ofNat _

theorem isClean_encode (cs : List Char) : IsClean (encode cs) := by
  cases cs with
  | nil => exact isClean_nil
  | cons c cs =>
    obtain ⟨b, bs, hbytes, hclean, -⟩ := readOne_encodeChar c []
    rw [encode, List.flatMap_cons, hbytes]
    intro b' hb'
    obtain rfl := Option.some.inj hb'
    exact hclean

/-- No boundary is inside a character. -/
theorem IsBoundary.cases_encodeChar {c : Char} {bs : List UInt8} {offset : Nat}
    (h : IsBoundary (encodeChar c ++ bs) offset) :
    offset = 0 ∨ ∃ k, offset = (encodeChar c).length + k ∧ IsBoundary bs k := by
  obtain ⟨hle, hclean⟩ := h
  obtain ⟨b, tail, hbytes, -, -⟩ := readOne_encodeChar c []
  have htail : ∀ x ∈ tail, isContinuation x.toNat = true := by
    have h := isContinuation_of_mem_tail (c := c)
    rwa [hbytes] at h
  rw [hbytes] at hle hclean ⊢
  rcases offset with _ | offset
  · exact .inl rfl
  rw [List.cons_append, List.drop_succ_cons] at hclean
  rcases Nat.lt_or_ge offset tail.length with hin | hout
  · -- The offset is inside the character, where a byte goes on with it.
    rw [List.drop_append_of_le_length (Nat.le_of_lt hin), List.drop_eq_getElem_cons hin] at hclean
    have hgoes := htail _ (List.getElem_mem hin)
    rw [hclean _ rfl] at hgoes
    cases hgoes
  · obtain ⟨k, rfl⟩ := Nat.exists_eq_add_of_le hout
    rw [List.length_append, List.length_cons] at hle
    rw [List.drop_length_add_append] at hclean
    exact .inr ⟨k, Nat.add_right_comm _ _ _, by omega, hclean⟩

/-- **The boundaries of a well-formed text are the ends of its front parts.** -/
theorem isBoundary_encode_iff {cs : List Char} {offset : Nat} :
    IsBoundary (encode cs) offset ↔
      ∃ front rest, cs = front ++ rest ∧ offset = (encode front).length := by
  constructor
  · intro h
    induction cs generalizing offset with
    | nil => exact ⟨[], [], rfl, Nat.le_zero.mp h.1⟩
    | cons c cs ih =>
      rw [encode, List.flatMap_cons, ← encode] at h
      rcases h.cases_encodeChar with rfl | ⟨k, rfl, hk⟩
      · exact ⟨[], c :: cs, rfl, rfl⟩
      · obtain ⟨front, rest, rfl, rfl⟩ := ih hk
        refine ⟨c :: front, rest, rfl, ?_⟩
        rw [← List.length_append]
        rfl
  · rintro ⟨front, rest, rfl, rfl⟩
    rw [encode_append]
    refine ⟨?_, ?_⟩
    · rw [List.length_append]
      exact Nat.le_add_right _ _
    · rw [List.drop_left]
      exact isClean_encode rest

end Text
end NodeSchema
