import NodeSchema.Proofs.Json.RoundTrip
import NodeSchema.Proofs.Result

/-!
# What a reader gives is readable

Every value that `Json.read` gives is readable (`Json.IsReadable`), hence read back from its own
text.  The members of an object have different names because the reader enters them in a table; a
whole number is not too long because the reader refuses it otherwise; and rounding gives canonical
numbers only.
-/

set_option autoImplicit false

namespace NodeSchema
namespace Json

theorem areDigits_takeWhile (cs : List Char) : AreDigits (cs.takeWhile Char.isDigit) :=
  List.all_eq_true.mp List.all_takeWhile

theorem areDigits_wholeDigits (cs : List Char) : AreDigits (wholeDigits cs) := by
  rw [wholeDigits.eq_def]
  split
  · exact areDigits_zeros 1
  · exact areDigits_takeWhile _

/-- Digits that are not too many are a whole number that is not too long. -/
theorem decimalLength_digitsValue_le {ds : List Char} (hds : AreDigits ds) (hpos : ds ≠ []) :
    Binary64.decimalLength (digitsValue ds) ≤ ds.length :=
  (Nat.length_toDigits_le_iff (by decide) (List.length_pos_iff.mpr hpos)).mpr (digitsValue_lt hds)

theorem isReadable_of_readUnsigned {negative : Bool} {cs rest : List Char} {n n' : Nat} {v : Json}
    (h : readUnsigned negative cs n = .ok (v, rest, n')) : v.IsReadable := by
  rw [readUnsigned] at h
  dsimp only at h
  split at h
  · cases h
  · next hwhole =>
    split at h
    · split at h
      · cases h
      · next hshort =>
        obtain ⟨rfl, -⟩ := Prod.mk.inj (Except.ok.inj h)
        have hlength := decimalLength_digitsValue_le (areDigits_wholeDigits cs)
          (mt List.isEmpty_iff.mpr hwhole)
        refine .int (le_trans ?_ (hlength.trans (not_lt.mp hshort)))
        split <;> simp
    · obtain ⟨rfl, -⟩ := Prod.mk.inj (Except.ok.inj h)
      exact .float (Binary64.isCanonical_ofDecimal _ _ _)

theorem isReadable_of_readNumber {cs rest : List Char} {n n' : Nat} {v : Json}
    (h : readNumber cs n = .ok (v, rest, n')) : v.IsReadable := by
  rw [readNumber.eq_def] at h
  split at h
  · exact isReadable_of_readUnsigned h
  · exact isReadable_of_readUnsigned h

theorem isReadable_words : ∀ w ∈ words, w.2.IsReadable := by
  simp only [words, List.forall_mem_cons]
  exact ⟨.null, .bool true, .bool false, .float trivial, .float trivial, .float trivial,
    List.forall_mem_nil _⟩

/-- The reader of the parts of a value has so much fuel less, so the induction is on the fuel. -/
theorem isReadable_of_readValue (length fuel : Nat) :
    (∀ {cs rest : List Char} {n n' : Nat} {v : Json},
      readValue length fuel cs n = .ok (v, rest, n') → v.IsReadable) ∧
    (∀ {cs rest : List Char} {n n' : Nat} {vs : List Json},
      readItems length fuel cs n = .ok (vs, rest, n') → ∀ v ∈ vs, v.IsReadable) ∧
    (∀ {cs rest : List Char} {n n' : Nat} {ms : List (String × Json)},
      readMembers length fuel cs n = .ok (ms, rest, n') → ∀ m ∈ ms, m.2.IsReadable) := by
  induction fuel with
  | zero => refine ⟨?_, ?_, ?_⟩ <;> intro _ _ _ _ _ h <;> cases h
  | succ fuel ih =>
    obtain ⟨hvalue, hitems, hmembers⟩ := ih
    refine ⟨?_, ?_, ?_⟩
    · intro cs rest n n' v h
      rw [readValue.eq_def] at h
      dsimp only at h
      split at h
      · cases h
      · split at h
        · obtain ⟨r, -, hr⟩ := map_eq_ok.mp h
          rw [← (Prod.mk.inj hr).1]
          exact .string r.1
        · split at h
          · split at h
            · rw [← (Prod.mk.inj (Except.ok.inj h)).1]
              exact .object List.nodup_nil (List.forall_mem_nil _)
            · obtain ⟨r, hr, heq⟩ := map_eq_ok.mp h
              rw [← (Prod.mk.inj heq).1]
              exact .object (Table.isMap_ofPairs r.1)
                fun m hm ↦ hmembers hr m (Table.mem_of_mem_ofPairs hm)
          · split at h
            · split at h
              · rw [← (Prod.mk.inj (Except.ok.inj h)).1]
                exact .array (List.forall_mem_nil _)
              · obtain ⟨r, hr, heq⟩ := map_eq_ok.mp h
                rw [← (Prod.mk.inj heq).1]
                exact .array (hitems hr)
            · split at h
              · next w v' hfind =>
                rw [← (Prod.mk.inj (Except.ok.inj h)).1]
                exact isReadable_words _ (List.mem_of_find?_eq_some hfind)
              · exact isReadable_of_readNumber h
    · intro cs rest n n' vs h
      rw [readItems.eq_def] at h
      dsimp only at h
      split at h
      · cases h
      · next v after offset hread =>
        have hv := hvalue hread
        split at h
        · rw [← (Prod.mk.inj (Except.ok.inj h)).1]
          exact List.forall_mem_singleton.mpr hv
        · obtain ⟨r, hr, heq⟩ := map_eq_ok.mp h
          rw [← (Prod.mk.inj heq).1]
          exact List.forall_mem_cons.mpr ⟨hv, hitems hr⟩
        · cases h
    · intro cs rest n n' ms h
      rw [readMembers.eq_def] at h
      dsimp only at h
      split at h
      · split at h
        · cases h
        · split at h
          · split at h
            · cases h
            · next v after offset hread =>
              have hv := hvalue hread
              split at h
              · rw [← (Prod.mk.inj (Except.ok.inj h)).1]
                exact List.forall_mem_singleton.mpr hv
              · obtain ⟨r, hr, heq⟩ := map_eq_ok.mp h
                rw [← (Prod.mk.inj heq).1]
                exact List.forall_mem_cons.mpr ⟨hv, hmembers hr⟩
              · cases h
          · cases h
      · cases h

/-- **What is read is readable**, hence read back from its own text. -/
theorem isReadable_of_read {cs : List Char} {v : Json} (h : read cs = .ok v) : v.IsReadable := by
  rw [read.eq_def] at h
  dsimp only at h
  split at h
  · split at h
    · cases h
    · split at h
      · cases h
      · next v' rest offset hread =>
        split at h
        · rw [← Except.ok.inj h]
          exact (isReadable_of_readValue _ _).1 hread
        · cases h
  · cases h

end Json
end NodeSchema
