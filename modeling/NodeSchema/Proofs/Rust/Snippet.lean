import Mathlib.Data.List.Induction
import NodeSchema.Rust.Snippet

/-!
# Where the places of a snippet come from

A snippet is put together by calls that write text or copy a slice of the origin
(`Snippet.build`).  One more call leaves all places in front of what it adds where they were
(`trace_write`, `trace_copy`).  By induction on the calls, a copied byte is traced back to the place
that it was copied from (`trace_of_covers`), and any other place to the end of the last slice before
it, or to the anchor (`trace_of_not_covers`).  `trace_build` is all of it at once.

Traced places stay within the slices and the anchor (`IsWithin.trace_mem`).
-/

set_option autoImplicit false

namespace NodeSchema
namespace Rust

namespace Source

variable (s : Source) {start stop : Nat}

theorem length_slice_le (start stop : Nat) : (s.slice start stop).length ≤ stop - start := by
  rw [slice, List.length_drop, List.length_take]
  omega

theorem length_slice (h : stop ≤ s.bytes.length) : (s.slice start stop).length = stop - start := by
  rw [slice, List.length_drop, List.length_take_of_le h]

theorem getElem?_slice {i : Nat} (h : i < stop - start) :
    (s.slice start stop)[i]? = s.bytes[start + i]? := by
  rw [slice, List.getElem?_drop, List.getElem?_take_of_lt (by omega)]

end Source

namespace Snippet

/-! ## One piece -/

section Pieces

variable {offset position best : Nat}

theorem traceFrom_concat_written (ps : List Piece) (bs : List UInt8) :
    traceFrom offset position best (ps ++ [.written bs]) = traceFrom offset position best ps := by
  induction ps generalizing position best with
  | nil => rfl
  | cons p ps ih => cases p <;> simp only [List.cons_append, traceFrom, ih]

theorem traceFrom_concat_copied (ps : List Piece) (start : Nat) (bs : List UInt8) :
    traceFrom offset position best (ps ++ [.copied start bs]) =
      if offset < position + (ps.flatMap Piece.bytes).length then traceFrom offset position best ps
      else if offset < position + (ps.flatMap Piece.bytes).length + bs.length then
        start + (offset - (position + (ps.flatMap Piece.bytes).length))
      else start + bs.length := by
  induction ps generalizing position best with
  | nil => grind [traceFrom]
  | cons p ps ih => cases p <;> grind [traceFrom, Piece.bytes]

theorem traceFrom_mem {low high : Nat} {ps : List Piece} (hbest : low ≤ best ∧ best ≤ high)
    (hps : ∀ start bs, .copied start bs ∈ ps → low ≤ start ∧ start + bs.length ≤ high) :
    low ≤ traceFrom offset position best ps ∧ traceFrom offset position best ps ≤ high := by
  induction ps generalizing position best with
  | nil => exact hbest
  | cons p ps ih =>
    have hrest (start : Nat) (bs : List UInt8) (h : .copied start bs ∈ ps) :=
      hps start bs (List.mem_cons_of_mem p h)
    cases p with
    | written bs => exact ih hbest hrest
    | copied start bs =>
      have hslice := hps start bs List.mem_cons_self
      rw [traceFrom]
      split
      · next hinside =>
        rw [Bool.and_eq_true, decide_eq_true_eq, decide_eq_true_eq] at hinside
        omega
      · refine ih ?_ hrest
        split <;> omega

end Pieces

variable (s : Snippet) (offset : Nat)

/-- What is written in between leaves all places where they were. -/
theorem trace_write (text : String) : (s.write text).trace offset = s.trace offset :=
  traceFrom_concat_written ..

/-- A slice tells where its own bytes come from, and all places behind it. -/
theorem trace_copy (start stop : Nat) : (s.copy start stop).trace offset =
    if offset < s.bytes.length then s.trace offset
    else if offset < s.bytes.length + (s.origin.slice start stop).length then
      start + (offset - s.bytes.length)
    else start + (s.origin.slice start stop).length := by
  have h : traceFrom offset 0 s.anchor (s.pieces ++ [.copied start _]) = _ :=
    traceFrom_concat_copied s.pieces start (s.origin.slice start stop)
  simp only [Nat.zero_add] at h
  exact h

theorem bytes_write (text : String) : (s.write text).bytes = s.bytes ++ Text.bytesOf text := by
  simp [bytes, write, Piece.bytes]

theorem bytes_copy (start stop : Nat) :
    (s.copy start stop).bytes = s.bytes ++ s.origin.slice start stop := by
  simp [bytes, copy, Piece.bytes]

/-! ## Bounds -/

/-- The anchor and all slices of a snippet lie between two places of the origin. -/
structure IsWithin (s : Snippet) (low high : Nat) : Prop where
  anchor_mem : low ≤ s.anchor ∧ s.anchor ≤ high
  copied_mem : ∀ start bs, .copied start bs ∈ s.pieces → low ≤ start ∧ start + bs.length ≤ high

namespace IsWithin

variable {s} {low high : Nat}

theorem empty {origin : Source} {anchor : Nat} (hlow : low ≤ anchor) (hhigh : anchor ≤ high) :
    (empty origin anchor).IsWithin low high :=
  ⟨⟨hlow, hhigh⟩, nofun⟩

variable (h : s.IsWithin low high)
include h

theorem write (text : String) : (s.write text).IsWithin low high := by
  refine ⟨h.anchor_mem, fun start bs hmem ↦ ?_⟩
  obtain hmem | hmem := List.mem_append.mp hmem
  · exact h.copied_mem start bs hmem
  · cases List.mem_singleton.mp hmem

theorem copy {start stop : Nat} (hlow : low ≤ start) (hhigh : start ≤ high) (hstop : stop ≤ high) :
    (s.copy start stop).IsWithin low high := by
  refine ⟨h.anchor_mem, fun start' bs hmem ↦ ?_⟩
  obtain hmem | hmem := List.mem_append.mp hmem
  · exact h.copied_mem start' bs hmem
  · obtain ⟨rfl, rfl⟩ := Piece.copied.inj (List.mem_singleton.mp hmem)
    have hlength := s.origin.length_slice_le start' stop
    omega

/-- **Traced places stay within the anchor and the slices.** -/
theorem trace_mem (offset : Nat) : low ≤ s.trace offset ∧ s.trace offset ≤ high :=
  traceFrom_mem h.anchor_mem h.copied_mem

end IsWithin

/-! ## All calls -/

/-- A call that adds to a snippet. -/
inductive Call
  | write (text : String)
  | copy (start stop : Nat)
deriving DecidableEq, Repr

/-- What the call copies lies in the text. -/
def Call.IsIn (origin : Source) : Call → Prop
  | .write _ => True
  | .copy start stop => start ≤ stop ∧ stop ≤ origin.bytes.length

instance (origin : Source) : DecidablePred (Call.IsIn origin)
  | .write _ => instDecidableTrue
  | .copy _ _ => instDecidableAnd

/-- Adds what a call says. -/
def call (s : Snippet) : Call → Snippet
  | .write text => s.write text
  | .copy start stop => s.copy start stop

/-- The snippet that calls put together, one after the other. -/
def build (origin : Source) (anchor : Nat) (calls : List Call) : Snippet :=
  calls.foldl call (empty origin anchor)

section Build

variable {origin : Source} {anchor : Nat} {calls : List Call} {c : Call}

theorem build_concat : build origin anchor (calls ++ [c]) = (build origin anchor calls).call c := by
  rw [build, List.foldl_append]
  rfl

theorem origin_build (calls : List Call) : (build origin anchor calls).origin = origin := by
  induction calls using List.reverseRecOn with
  | nil => rfl
  | append_singleton calls c ih => rw [build_concat]; cases c <;> exact ih

/-- A call leaves what is there. -/
theorem exists_bytes_call (s : Snippet) (c : Call) : ∃ bs, (s.call c).bytes = s.bytes ++ bs := by
  cases c with
  | write text => exact ⟨_, bytes_write s text⟩
  | copy start stop => exact ⟨_, bytes_copy s start stop⟩

/-- A call leaves all places in front of what it adds. -/
theorem trace_call_of_lt (s : Snippet) (c : Call) {offset : Nat} (h : offset < s.bytes.length) :
    (s.call c).trace offset = s.trace offset := by
  cases c with
  | write text => exact trace_write s offset text
  | copy start stop => exact (trace_copy s offset start stop).trans (if_pos h)

/-! ### What the calls contribute -/

variable (origin anchor) in
/-- Where that begins which call number `k` adds. -/
def position (calls : List Call) (k : Nat) : Nat :=
  (build origin anchor (calls.take k)).bytes.length

variable (origin anchor) in
/-- Call number `k` copies the slice, and the offset lies in the bytes that it adds. -/
structure Covers (calls : List Call) (offset k start stop : Nat) : Prop where
  call_eq : calls[k]? = some (.copy start stop)
  position_le : position origin anchor calls k ≤ offset
  lt_position : offset < position origin anchor calls (k + 1)

variable (origin anchor) in
/-- Call number `k` copies the slice, and the bytes that it adds end at the offset or before it. -/
structure Ends (calls : List Call) (offset k start stop : Nat) : Prop where
  call_eq : calls[k]? = some (.copy start stop)
  position_le : position origin anchor calls (k + 1) ≤ offset

variable (origin anchor) in
/-- Call number `k` is the last copy that ends at the offset or before it. -/
structure EndsLast (calls : List Call) (offset k start stop : Nat) : Prop
    extends Ends origin anchor calls offset k start stop where
  last : ∀ j start stop, Ends origin anchor calls offset j start stop → j ≤ k

theorem position_concat {k : Nat} (h : k ≤ calls.length) :
    position origin anchor (calls ++ [c]) k = position origin anchor calls k := by
  rw [position, position, List.take_append_of_le_length h]

theorem position_length :
    position origin anchor calls calls.length = (build origin anchor calls).bytes.length := by
  rw [position, List.take_length]

theorem position_concat_length : position origin anchor (calls ++ [c]) (calls.length + 1) =
    ((build origin anchor calls).call c).bytes.length := by
  rw [← build_concat, ← position_length, List.length_append, List.length_singleton]

theorem getElem?_concat_eq_some_iff {k : Nat} {d : Call} :
    (calls ++ [c])[k]? = some d ↔ calls[k]? = some d ∨ k = calls.length ∧ c = d := by
  rw [List.getElem?_append]
  by_cases hk : k < calls.length
  · simp [hk, Nat.ne_of_lt hk]
  · grind

variable {offset k start stop : Nat}

theorem covers_concat_iff : Covers origin anchor (calls ++ [c]) offset k start stop ↔
    Covers origin anchor calls offset k start stop ∨
      (k = calls.length ∧ c = .copy start stop) ∧
        (build origin anchor calls).bytes.length ≤ offset ∧
          offset < ((build origin anchor calls).call c).bytes.length := by
  constructor
  · rintro ⟨hcall, hle, hlt⟩
    rw [getElem?_concat_eq_some_iff] at hcall
    obtain hcall | ⟨rfl, rfl⟩ := hcall
    · have hk : k < calls.length := (List.getElem?_eq_some_iff.mp hcall).1
      rw [position_concat (by omega)] at hle hlt
      exact .inl ⟨hcall, hle, hlt⟩
    · rw [position_concat (Nat.le_refl _), position_length] at hle
      rw [position_concat_length] at hlt
      exact .inr ⟨⟨rfl, rfl⟩, hle, hlt⟩
  · rintro (⟨hcall, hle, hlt⟩ | ⟨hcall, hle, hlt⟩)
    · have hk : k < calls.length := (List.getElem?_eq_some_iff.mp hcall).1
      constructor
      · rw [getElem?_concat_eq_some_iff]
        exact .inl hcall
      · rwa [position_concat (by omega)]
      · rwa [position_concat (by omega)]
    · obtain ⟨rfl, rfl⟩ := hcall
      constructor
      · rw [getElem?_concat_eq_some_iff]
        exact .inr ⟨rfl, rfl⟩
      · rwa [position_concat (Nat.le_refl _), position_length]
      · rwa [position_concat_length]

theorem ends_concat_iff : Ends origin anchor (calls ++ [c]) offset k start stop ↔
    Ends origin anchor calls offset k start stop ∨
      (k = calls.length ∧ c = .copy start stop) ∧
        ((build origin anchor calls).call c).bytes.length ≤ offset := by
  constructor
  · rintro ⟨hcall, hle⟩
    rw [getElem?_concat_eq_some_iff] at hcall
    obtain hcall | ⟨rfl, rfl⟩ := hcall
    · have hk : k < calls.length := (List.getElem?_eq_some_iff.mp hcall).1
      rw [position_concat (by omega)] at hle
      exact .inl ⟨hcall, hle⟩
    · rw [position_concat_length] at hle
      exact .inr ⟨⟨rfl, rfl⟩, hle⟩
  · rintro (⟨hcall, hle⟩ | ⟨hcall, hle⟩)
    · have hk : k < calls.length := (List.getElem?_eq_some_iff.mp hcall).1
      constructor
      · rw [getElem?_concat_eq_some_iff]
        exact .inl hcall
      · rwa [position_concat (by omega)]
    · obtain ⟨rfl, rfl⟩ := hcall
      constructor
      · rw [getElem?_concat_eq_some_iff]
        exact .inr ⟨rfl, rfl⟩
      · rwa [position_concat_length]

theorem Ends.lt_length (h : Ends origin anchor calls offset k start stop) : k < calls.length :=
  (List.getElem?_eq_some_iff.mp h.call_eq).1

/-- A last call that copies is the last copy once it is complete. -/
theorem Ends.endsLast
    (h : Ends origin anchor (calls ++ [c]) offset calls.length start stop) :
    EndsLast origin anchor (calls ++ [c]) offset calls.length start stop := by
  refine ⟨h, fun j start' stop' hj ↦ ?_⟩
  rw [ends_concat_iff] at hj
  obtain hj | ⟨⟨rfl, -⟩, -⟩ := hj
  · exact Nat.le_of_lt hj.lt_length
  · exact Nat.le_refl _

theorem ends_concat_iff_of_not
    (h : ∀ start stop, ¬ Ends origin anchor (calls ++ [c]) offset calls.length start stop) :
    Ends origin anchor (calls ++ [c]) offset k start stop ↔
      Ends origin anchor calls offset k start stop := by
  rw [ends_concat_iff, or_iff_left]
  rintro ⟨⟨rfl, hc⟩, hle⟩
  refine h start stop ?_
  rw [ends_concat_iff]
  exact .inr ⟨⟨rfl, hc⟩, hle⟩

/-- A place behind a complete copy, and nothing after the copy, comes from its end. -/
theorem trace_concat_of_ends (hc : c.IsIn origin)
    (h : Ends origin anchor (calls ++ [c]) offset calls.length start stop) :
    (build origin anchor (calls ++ [c])).trace offset = stop := by
  rw [ends_concat_iff] at h
  obtain hold | ⟨⟨-, rfl⟩, hle⟩ := h
  · exact absurd hold.lt_length (Nat.lt_irrefl _)
  obtain ⟨hstart, hstop⟩ := hc
  have hslice : (origin.slice start stop).length = stop - start := origin.length_slice hstop
  rw [build_concat]
  simp only [call] at hle ⊢
  rw [bytes_copy, List.length_append, origin_build, hslice] at hle
  rw [trace_copy, origin_build, hslice, if_neg (by omega), if_neg (by omega)]
  omega

/-- A call leaves a place that is neither in its copy nor behind it. -/
theorem trace_concat_of_not
    (hcovers : ∀ start stop,
      ¬ Covers origin anchor (calls ++ [c]) offset calls.length start stop)
    (hends : ∀ start stop, ¬ Ends origin anchor (calls ++ [c]) offset calls.length start stop) :
    (build origin anchor (calls ++ [c])).trace offset =
      (build origin anchor calls).trace offset := by
  rw [build_concat]
  cases c with
  | write text => exact trace_write ..
  | copy start stop =>
    refine trace_call_of_lt _ _ (Nat.lt_of_not_le fun hle ↦ hcovers start stop ?_)
    rw [covers_concat_iff]
    refine .inr ⟨⟨rfl, rfl⟩, hle, Nat.lt_of_not_le fun hle ↦ hends start stop ?_⟩
    rw [ends_concat_iff]
    exact .inr ⟨⟨rfl, rfl⟩, hle⟩

/-! ### Where places come from -/

variable (hcalls : ∀ d ∈ calls, d.IsIn origin)
include hcalls

/-- **A copied byte comes from where it was copied.** -/
theorem trace_of_covers (h : Covers origin anchor calls offset k start stop) :
    (build origin anchor calls).trace offset = start + (offset - position origin anchor calls k) ∧
      offset < (build origin anchor calls).bytes.length ∧
      origin.bytes[start + (offset - position origin anchor calls k)]? =
        (build origin anchor calls).bytes[offset]? := by
  induction calls using List.reverseRecOn with
  | nil => cases h.call_eq
  | append_singleton calls c ih =>
    obtain ⟨hbefore, hlast⟩ := List.forall_mem_append.mp hcalls
    rw [covers_concat_iff] at h
    rw [build_concat]
    obtain hold | ⟨⟨rfl, rfl⟩, hle, hlt⟩ := h
    · obtain ⟨htrace, hlength, hbyte⟩ := ih hbefore hold
      obtain ⟨bs, hbs⟩ := exists_bytes_call (build origin anchor calls) c
      have hk : k < calls.length := (List.getElem?_eq_some_iff.mp hold.call_eq).1
      rw [trace_call_of_lt _ _ hlength, position_concat (Nat.le_of_lt hk), hbs, List.length_append,
        List.getElem?_append_left hlength]
      exact ⟨htrace, by omega, hbyte⟩
    · obtain ⟨hstart, hstop⟩ := List.forall_mem_singleton.mp hlast
      have hslice : (origin.slice start stop).length = stop - start := origin.length_slice hstop
      simp only [call] at hlt ⊢
      rw [position_concat (Nat.le_refl _), position_length, trace_copy, if_neg (by omega)]
      rw [bytes_copy, List.length_append, origin_build, hslice] at hlt ⊢
      rw [if_pos hlt, List.getElem?_append_right hle, Source.getElem?_slice _ (by omega)]
      exact ⟨rfl, hlt, rfl⟩

/-- **Outside all copies, a place comes from the end of the last one before it**, or from the anchor
if there is none. -/
theorem trace_of_not_covers (h : ∀ k start stop, ¬ Covers origin anchor calls offset k start stop) :
    (∃ k start stop, EndsLast origin anchor calls offset k start stop ∧
      (build origin anchor calls).trace offset = stop) ∨
    (∀ k start stop, ¬ Ends origin anchor calls offset k start stop) ∧
      (build origin anchor calls).trace offset = anchor := by
  induction calls using List.reverseRecOn with
  | nil => exact .inr ⟨fun k start stop hends ↦ (by cases hends.call_eq), rfl⟩
  | append_singleton calls c ih =>
    obtain ⟨hbefore, hlast⟩ := List.forall_mem_append.mp hcalls
    have hold := ih hbefore fun k start stop hk ↦ h k start stop (by
      rw [covers_concat_iff]
      exact .inl hk)
    by_cases hnew : ∃ start stop,
        Ends origin anchor (calls ++ [c]) offset calls.length start stop
    · obtain ⟨start, stop, hends⟩ := hnew
      exact .inl ⟨calls.length, start, stop, hends.endsLast,
        trace_concat_of_ends (List.forall_mem_singleton.mp hlast) hends⟩
    · have hnot (start stop : Nat)
          (hends : Ends origin anchor (calls ++ [c]) offset calls.length start stop) : False :=
        hnew ⟨start, stop, hends⟩
      rw [trace_concat_of_not (h calls.length) hnot]
      obtain ⟨k, start, stop, hk, heq⟩ | ⟨hnone, heq⟩ := hold
      · refine .inl ⟨k, start, stop, ⟨(ends_concat_iff_of_not hnot).mpr hk.toEnds, ?_⟩, heq⟩
        exact fun j start stop hj ↦ hk.last j start stop ((ends_concat_iff_of_not hnot).mp hj)
      · exact .inr ⟨fun k start stop hk ↦
          hnone k start stop ((ends_concat_iff_of_not hnot).mp hk), heq⟩

theorem isWithin_build (hanchor : anchor ≤ origin.bytes.length) :
    (build origin anchor calls).IsWithin 0 origin.bytes.length := by
  induction calls using List.reverseRecOn with
  | nil => exact .empty (Nat.zero_le _) hanchor
  | append_singleton calls c ih =>
    obtain ⟨hbefore, hlast⟩ := List.forall_mem_append.mp hcalls
    rw [build_concat]
    cases c with
    | write text => exact (ih hbefore).write text
    | copy start stop =>
      obtain ⟨hstart, hstop⟩ := List.forall_mem_singleton.mp hlast
      exact (ih hbefore).copy (Nat.zero_le _) (Nat.le_trans hstart hstop) hstop

/-- **Every place of a snippet is traced back faithfully.**  A place within the bytes of a copy
comes from the place of this very byte.  Any other one comes from the end of the last copy that is
complete there, or from the anchor.  It is always a place of the origin if the anchor is one. -/
theorem trace_build (offset : Nat) :
    (∀ k start stop, Covers origin anchor calls offset k start stop →
      (build origin anchor calls).trace offset = start + (offset - position origin anchor calls k) ∧
      offset < (build origin anchor calls).bytes.length ∧
      origin.bytes[(build origin anchor calls).trace offset]? =
        (build origin anchor calls).bytes[offset]?) ∧
    ((∀ k start stop, ¬ Covers origin anchor calls offset k start stop) →
      (∃ k start stop, EndsLast origin anchor calls offset k start stop ∧
        (build origin anchor calls).trace offset = stop) ∨
      (∀ k start stop, ¬ Ends origin anchor calls offset k start stop) ∧
        (build origin anchor calls).trace offset = anchor) ∧
    (anchor ≤ origin.bytes.length →
      (build origin anchor calls).trace offset ≤ origin.bytes.length) := by
  refine ⟨fun k start stop h ↦ ?_, trace_of_not_covers hcalls, fun hanchor ↦ ?_⟩
  · obtain ⟨htrace, hlength, hbyte⟩ := trace_of_covers hcalls h
    exact ⟨htrace, hlength, by rw [htrace, hbyte]⟩
  · exact ((isWithin_build hcalls hanchor).trace_mem offset).2

end Build

/-- Slices out of order and an empty one, with text between them. -/
def sampleCalls : List Call := [.copy 4 6, .write "-", .copy 0 3, .copy 5 5]

theorem trace_build_sampleCalls :
    (∀ d ∈ sampleCalls, d.IsIn (.ofString "src/lib.rs" "abcdef")) ∧
      (build (.ofString "src/lib.rs" "abcdef") 1 sampleCalls).bytes = Text.bytesOf "ef-abc" ∧
      (build (.ofString "src/lib.rs" "abcdef") 1 sampleCalls).trace 4 = 1 := by
  have hcalls : ∀ d ∈ sampleCalls, d.IsIn (.ofString "src/lib.rs" "abcdef") := by
    decide +kernel
  have hcovers : Covers (.ofString "src/lib.rs" "abcdef") 1 sampleCalls 4 2 0 3 :=
    ⟨rfl, by decide +kernel, by decide +kernel⟩
  refine ⟨hcalls, by decide +kernel, ?_⟩
  exact ((trace_build hcalls 4).1 2 0 3 hcovers).1.trans (by decide +kernel)

end Snippet
end Rust
end NodeSchema
