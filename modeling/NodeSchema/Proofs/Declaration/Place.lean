import NodeSchema.Declaration.Recognize
import NodeSchema.Proofs.Rust.Cursor
import NodeSchema.Proofs.Rust.Place
import NodeSchema.Rust.Grammar.File
import NodeSchema.Proofs.Rust.Snippet
import NodeSchema.Proofs.Text.Position

/-!
# Where complaints about a call point

A recogniser complains about places of the call only (`recognize_located`).  Its offsets come from
the cursors, which stand at tokens of the call or at its closing delimiter (`Cursor.LiesIn`), and
from the snippet, which traces every place back into the slices that were copied or to its anchor
(`Snippet.ComesFrom`).  `Yields` carries both through the steps of a recogniser.
-/

set_option autoImplicit false

namespace NodeSchema

open Rust

variable {α β : Type} {source : Source} {low high : Nat} {P : α → Prop} {Q : β → Prop}

/-! ## Failures that point into a text -/

/-- If the failure is told at a place, this is an offset of the text between the given ones. -/
def Failure.PointsInto (source : Source) (low high : Nat) (f : Failure) : Prop :=
  ∀ path position complaint, f = .located path position complaint → path = source.path ∧
    ∃ offset, low ≤ offset ∧ offset ≤ high ∧ position = .inBytes source.bytes offset

/-- What the computation gives has the property; if it fails, the failure points between the
offsets. -/
def Yields (source : Source) (low high : Nat) (P : α → Prop) : Except Failure α → Prop
  | .ok a => P a
  | .error f => f.PointsInto source low high

namespace Yields

variable {x : Except Failure α}

theorem bind (hx : Yields source low high P x) {f : α → Except Failure β}
    (hf : ∀ a, P a → Yields source low high Q (f a)) : Yields source low high Q (x >>= f) := by
  cases x with
  | ok a => exact hf a hx
  | error e => exact hx

theorem map (hx : Yields source low high P x) {f : α → β} (hf : ∀ a, P a → Q (f a)) :
    Yields source low high Q (x.map f) := by
  cases x with
  | ok a => exact hf a hx
  | error e => exact hx

theorem mapM {f : α → Except Failure β} {as : List α}
    (h : ∀ a ∈ as, Yields source low high (fun _ ↦ True) (f a)) :
    Yields source low high (fun _ ↦ True) (as.mapM f) := by
  cases hall : as.mapM f with
  | ok => exact trivial
  | error e =>
    obtain ⟨before, a, after, rfl, -, ha⟩ := mapM_eq_error.mp hall
    have hfirst := h a (List.mem_append_right before List.mem_cons_self)
    rwa [ha] at hfirst

end Yields

theorem yields_complain {offset : Nat} (h : low ≤ offset ∧ offset ≤ high) (complaint : Complaint) :
    Yields source low high P (.error (source.complain offset complaint)) := by
  rintro _ _ _ ⟨⟩
  exact ⟨rfl, offset, h.1, h.2, rfl⟩

theorem yields_unlocated {f : Failure}
    (h : ∀ path position complaint, f ≠ .located path position complaint) :
    Yields source low high P (.error f) :=
  fun path position complaint hf ↦ absurd hf (h path position complaint)

/-! ## Cursors -/

namespace Rust

theorem Tree.LiesIn.start_le {t : Tree} (h : t.LiesIn low high) :
    low ≤ t.start ∧ t.start ≤ high :=
  ⟨h.start_mem.1, Nat.le_of_lt h.start_mem.2⟩

/-- The cursor reads the text, and its tokens and the closing delimiter lie between the offsets. -/
structure Cursor.LiesIn (source : Source) (low high : Nat) (c : Cursor) : Prop where
  source_eq : c.source = source
  tokens : ∀ t ∈ c.tokens, t.LiesIn low high
  close_mem : low ≤ c.close ∧ c.close ≤ high

theorem Tree.LiesIn.ofGroup {g : Tree} (h : g.LiesIn low high) :
    (Cursor.ofGroup source g).LiesIn source low high := by
  have hstop := h.stop_mem
  refine ⟨rfl, h.body, ?_⟩
  show low ≤ g.stop - 1 ∧ g.stop - 1 ≤ high
  omega

namespace Cursor

namespace LiesIn

variable {c : Cursor} (h : c.LiesIn source low high)
include h

theorem advance (n : Nat) : (c.advance n).LiesIn source low high :=
  ⟨h.source_eq, h.tokens, h.close_mem⟩

theorem peek {n : Nat} {t : Tree} (ht : c.peek n = some t) : t.LiesIn low high :=
  h.tokens t (List.mem_of_getElem? ht)

theorem offset_mem : low ≤ c.offset ∧ c.offset ≤ high := by
  rw [offset]
  split
  · next t ht => exact (h.peek ht).start_le
  · exact h.close_mem

theorem fail (complaint : Complaint) : Yields source low high P (c.fail complaint) := by
  rw [Cursor.fail, h.source_eq]
  exact yields_complain h.offset_mem complaint

theorem next : Yields source low high (fun r ↦ r.2.LiesIn source low high) c.next := by
  rw [Cursor.next]
  split
  · exact h.advance 1
  · exact h.fail _

theorem expect (text : String) :
    Yields source low high (fun r ↦ r.2.LiesIn source low high) (c.expect text) := by
  rw [Cursor.expect]
  split
  · exact h.next
  · exact h.fail _

theorem expectIdentifier : Yields source low high (fun r ↦
    c.offset + (Text.bytesOf r.1).length ≤ high ∧ r.2.LiesIn source low high)
      c.expectIdentifier := by
  rw [Cursor.expectIdentifier]
  split
  · next t ht =>
    split
    · next hident =>
      have hoffset : c.offset = t.start := by rw [offset, ht]; rfl
      have hword : t.kind = .word := by
        rw [Token.isIdentifier, Bool.and_eq_true, Bool.and_eq_true, decide_eq_true_eq] at hident
        exact hident.1.1
      refine ⟨?_, h.advance 1⟩
      rw [hoffset]
      exact (h.peek ht).first.word_le hword
    · exact h.fail _
  · exact h.fail _

theorem expectGroup (opener : String) : Yields source low high (fun r ↦
    r.1.LiesIn low high ∧ r.2.LiesIn source low high) (c.expectGroup opener) := by
  rw [Cursor.expectGroup]
  split
  · next t ht =>
    split
    · exact ⟨h.peek ht, h.advance 1⟩
    · exact h.fail _
  · exact h.fail _

theorem expectEnd : Yields source low high (fun _ ↦ True) c.expectEnd := by
  rw [Cursor.expectEnd]
  split
  · trivial
  · exact h.fail _

theorem eatMarker (name : String) : (c.eatMarker name).2.LiesIn source low high := by
  rw [Cursor.eatMarker]
  split
  · split
    · exact h.advance 2
    · exact h
  · exact h

/-- What is stepped over reaches from one place to another. -/
theorem skipAttributes : c.skipAttributes.2.LiesIn source low high ∧
    ∀ start stop, c.skipAttributes.1 = some (start, stop) →
      (low ≤ start ∧ start ≤ high) ∧ stop ≤ high := by
  have hstop : (attributeRun c.rest).2 ≤ high :=
    attributeRun_le fun t ht ↦ (h.tokens t (List.mem_of_mem_drop ht)).stop_mem.2
  rw [Cursor.skipAttributes]
  dsimp only
  split
  · exact ⟨h, fun _ _ hspan ↦ absurd hspan (Option.some_ne_none _).symm⟩
  · refine ⟨h.advance _, ?_⟩
    rintro _ _ ⟨⟩
    exact ⟨h.offset_mem, hstop⟩

end LiesIn
end Cursor

/-! ## Snippets -/

/-- The snippet is put together from slices of the text between the offsets. -/
structure Snippet.ComesFrom (source : Source) (low high : Nat) (s : Snippet) : Prop
    extends s.IsWithin low high where
  origin_eq : s.origin = source

namespace Snippet.ComesFrom

theorem empty {anchor : Nat} (h : low ≤ anchor ∧ anchor ≤ high) :
    (Snippet.empty source anchor).ComesFrom source low high :=
  ⟨.empty h.1 h.2, rfl⟩

variable {s : Snippet} (h : s.ComesFrom source low high)
include h

theorem write (text : String) : (s.write text).ComesFrom source low high :=
  ⟨h.toIsWithin.write text, h.origin_eq⟩

theorem copy {start stop : Nat} (hstart : low ≤ start ∧ start ≤ high) (hstop : stop ≤ high) :
    (s.copy start stop).ComesFrom source low high :=
  ⟨h.toIsWithin.copy hstart.1 hstart.2 hstop, h.origin_eq⟩

/-- What is wrong with the item of a snippet is told at a place that the snippet comes from. -/
theorem item [FileParser] (kind : String) :
    Yields source low high (fun _ ↦ True) (s.item kind) := by
  have hcomplain (offset : Nat) (complaint : Complaint) :
      (s.complain offset complaint).PointsInto source low high := by
    rw [Snippet.complain, h.origin_eq]
    exact yields_complain (P := fun _ : Unit ↦ True) (h.trace_mem offset) complaint
  rw [Snippet.item]
  split
  · next e _ =>
    cases e with
    | located offset complaint => exact hcomplain offset complaint
    | unlocated => exact yields_unlocated (by simp [SyntaxError.failure])
    | tooDeep => exact yields_unlocated (by simp [SyntaxError.failure])
  · dsimp only
    split
    · exact hcomplain _ _
    · split
      · trivial
      · exact yields_unlocated (by simp)

end Snippet.ComesFrom
end Rust

/-! ## Recognisers -/

namespace Declaration

theorem yields_ofStruct (ident : String) (body : StructBody) :
    Yields source low high (fun _ ↦ True) (ofStruct ident body) := by
  cases body with
  | named => trivial
  | unit => trivial
  | positional => exact yields_unlocated (by simp)

theorem yields_ofEnum (ident : String) (attributes : List Attribute)
    (variants : List (Entry Variant)) :
    Yields source low high (fun _ ↦ True) (ofEnum ident attributes variants) := by
  rw [ofEnum]
  refine (Yields.mapM fun v _ ↦ ?_).bind (Q := fun _ ↦ True) fun vs _ ↦ trivial
  rw [ofVariant]
  split
  · trivial
  · trivial
  · exact yields_unlocated (by simp)

section Steps

variable {s : Snippet} {c : Cursor} (hs : s.ComesFrom source low high)
include hs

variable (hc : c.LiesIn source low high)
include hc

theorem comesFrom_copyRest : (copyRest s c).ComesFrom source low high := by
  rw [copyRest]
  split
  · exact hs
  · exact hs.copy hc.offset_mem hc.close_mem.2

theorem comesFrom_copyAttributes (separator : String) :
    (copyAttributes s c.skipAttributes.1 separator).ComesFrom source low high := by
  have hrange := hc.skipAttributes.2
  generalize c.skipAttributes.1 = range at hrange ⊢
  cases range with
  | none => exact hs
  | some r =>
    obtain ⟨hstart, hstop⟩ := hrange r.1 r.2 rfl
    exact (hs.copy hstart hstop).write separator

/-- The entries of an enum are copied from the call. -/
theorem yields_copyEntries (fuel : Nat) :
    Yields source low high (fun s ↦ s.ComesFrom source low high) (copyEntries fuel c s) := by
  induction fuel generalizing c s with
  | zero => exact hs
  | succ fuel ih =>
    rw [copyEntries]
    split
    · exact hs
    have hattributes := comesFrom_copyAttributes hs hc " "
    have hfirst := hc.skipAttributes.1
    generalize c.skipAttributes = skipped at hattributes hfirst ⊢
    obtain ⟨attributes, c₁⟩ := skipped
    refine hfirst.expectIdentifier.bind ?_
    rintro ⟨name, c₂⟩ ⟨hname, hrest⟩
    have hcopied := hattributes.copy hfirst.offset_mem hname
    have hcomma {s' : Snippet} {c' : Cursor} (hs' : s'.ComesFrom source low high)
        (hc' : c'.LiesIn source low high) :
        Yields source low high (fun s ↦ s.ComesFrom source low high)
          (c'.expect "," >>= fun r ↦ copyEntries fuel r.2 (s'.write ",\n")) :=
      (hc'.expect ",").bind fun r hr ↦ ih (hs'.write ",\n") hr
    dsimp only
    split
    · next t ht =>
      have hlies := hrest.peek ht
      split
      · split
        · exact hcomma (hcopied.copy hlies.start_le hlies.stop_mem.2) (hrest.advance 1)
        · rw [hrest.source_eq]
          exact yields_complain hlies.start_le _
      · exact hcomma hcopied hrest
    · exact hcomma hcopied hrest

end Steps

section Parser

variable [FileParser]

theorem yields_enumOf {s : Snippet} (hs : s.ComesFrom source low high) :
    Yields source low high (fun _ ↦ True) (enumOf s) := by
  rw [enumOf]
  refine (hs.item _).bind fun i _ ↦ ?_
  split
  · exact yields_ofEnum _ _ _
  · exact yields_unlocated (by simp)

section Forms

variable {g : Tree} (hstart : (Cursor.ofGroup source g).LiesIn source low high)
include hstart

theorem yields_recognizeStruct :
    Yields source low high (fun _ ↦ True) (recognizeStruct source g) := by
  have hc := hstart.skipAttributes.1
  rw [recognizeStruct]
  refine (hc.expect "pub").bind fun r hc ↦ ?_
  refine (hc.expect "struct").bind fun r hc ↦ ?_
  refine hc.expectIdentifier.bind fun r hr ↦ ?_
  have hc := hr.2.eatMarker fullMarker
  have hempty : (Snippet.empty source _).ComesFrom source low high := .empty hc.offset_mem
  have hs := hempty.write ("pub struct " ++ r.1 ++ " ")
  refine ((comesFrom_copyRest hs hc).item _).bind fun i _ ↦ ?_
  split
  · exact (yields_ofStruct _ _).bind fun d _ ↦ trivial
  · exact yields_unlocated (by simp)

theorem yields_recognizeEnum :
    Yields source low high (fun _ ↦ True) (recognizeEnum source g) := by
  have hempty {c : Cursor} (hc : c.LiesIn source low high) :
      (copyAttributes (Snippet.empty source c.offset) _ "\n").ComesFrom source low high :=
    comesFrom_copyAttributes (.empty hc.offset_mem) hstart "\n"
  have hfirst := hstart.skipAttributes.1
  rw [recognizeEnum]
  generalize (Cursor.ofGroup source g).skipAttributes = skipped at hempty hfirst ⊢
  obtain ⟨attributes, c₁⟩ := skipped
  refine (hfirst.expect "pub").bind fun r hc ↦ ?_
  refine (hc.expect "enum").bind fun r hc ↦ ?_
  refine hc.expectIdentifier.bind fun r hr ↦ ?_
  have hc := hr.2.eatMarker noVisitMarker
  dsimp only
  split
  · trivial
  · have hs := (hempty hc).write ("pub enum " ++ r.1 ++ " ")
    exact (yields_enumOf (comesFrom_copyRest hs hc)).bind fun d _ ↦ trivial

theorem yields_recognizeEnumOfStructs :
    Yields source low high (fun _ ↦ True) (recognizeEnumOfStructs source g) := by
  have hempty {anchor : Nat} (hanchor : low ≤ anchor ∧ anchor ≤ high) :
      (copyAttributes (Snippet.empty source anchor) _ "\n").ComesFrom source low high :=
    comesFrom_copyAttributes (.empty hanchor) hstart "\n"
  have hfirst := hstart.skipAttributes.1
  rw [recognizeEnumOfStructs]
  generalize (Cursor.ofGroup source g).skipAttributes = skipped at hempty hfirst ⊢
  obtain ⟨attributes, c₁⟩ := skipped
  refine (hfirst.expect "pub").bind fun r hc ↦ ?_
  refine (hc.expect "enum").bind fun r hc ↦ ?_
  refine hc.expectIdentifier.bind fun r hr ↦ ?_
  refine (hr.2.expectGroup "\x7b").bind fun body hbody ↦ ?_
  refine hbody.2.expectEnd.bind fun _ _ ↦ ?_
  have hs := (hempty hbody.1.start_le).write ("pub enum " ++ r.1 ++ " \x7b\n")
  refine (yields_copyEntries hs hbody.1.ofGroup _).bind fun s hs ↦ ?_
  exact yields_enumOf (hs.write "\x7d\n")

/-- **The complaints of a recogniser point into the group.** -/
theorem yields_recognize {call : MacroCall} (hcall : call.arguments = g) :
    Yields source low high (fun _ ↦ True) (recognize source call) := by
  subst hcall
  rw [recognize]
  split
  · exact (yields_recognizeStruct hstart).map fun d _ ↦ trivial
  · exact yields_recognizeEnum hstart
  · exact (yields_recognizeEnumOfStructs hstart).map fun d _ ↦ trivial
  · trivial

end Forms

/-- **A complaint about a call points into it**: behind the opening delimiter, and not behind the
closing one. -/
theorem recognize_located {body : List Tree} {o c : Token} {call : MacroCall}
    (hgroup : Tree.IsDelimited o body c) (hcall : call.arguments = .group o body c) {path : String}
    {position : Text.Position} {complaint : Complaint}
    (h : recognize source call = .error (.located path position complaint)) :
    path = source.path ∧ (∃ offset, o.start < offset ∧ offset < c.stop ∧
      position = .inBytes source.bytes offset) ∧
      ¬ position.before (.inBytes source.bytes o.start) ∧
        ¬ (Text.Position.inBytes source.bytes c.stop).before position := by
  have hstop : c.stop - 1 = c.start := by rw [hgroup.stop_eq]; rfl
  have hstart : (Cursor.ofGroup source (.group o body c)).LiesIn source o.stop c.start :=
    ⟨rfl, hgroup.body, Nat.le_trans hgroup.stop_le (Nat.le_of_eq hstop.symm), Nat.le_of_eq hstop⟩
  have hyields := yields_recognize hstart hcall
  rw [h] at hyields
  obtain ⟨hpath, offset, hlow, hhigh, rfl⟩ := hyields path position complaint rfl
  have hopener := hgroup.start_lt
  have hcloser := hgroup.stop_eq
  refine ⟨hpath, ⟨offset, by omega, by omega, rfl⟩, ?_, ?_⟩
  · exact Text.Position.not_before_inBytes _ (by omega)
  · exact Text.Position.not_before_inBytes _ (by omega)

end Parser

/-- A text with a call in which a variant wraps something that is no path. -/
def brokenCall : Source :=
  .ofString "lib.rs" "\nast_enum_of_structs! \x7b pub enum E \x7b A(0), \x7d \x7d"

theorem recognize_located_brokenCall : ∃ o body c, Tree.IsDelimited o body c ∧
    recognize brokenCall ⟨Form.enumOfStructs.name, .group o body c, "", 0⟩ =
      .error (.located "lib.rs" ⟨2, 38⟩ .expectedPath) ∧
    ∃ offset, o.start < offset ∧ offset < c.stop ∧
      (⟨2, 38⟩ : Text.Position) = .inBytes brokenCall.bytes offset := by
  have hcall : ((trees? brokenCall.bytes).bind (·[2]?)).map (fun g ↦ (g.opener?,
      recognize brokenCall ⟨Form.enumOfStructs.name, g.joined, "", 0⟩)) =
        some (some "\x7b", .error (.located "lib.rs" ⟨2, 38⟩ .expectedPath)) := by
    decide +kernel
  obtain ⟨g, hg, heq⟩ := Option.map_eq_some_iff.mp hcall
  obtain ⟨ts, hts, hmem⟩ := Option.bind_eq_some_iff.mp hg
  obtain ⟨hopener, herror⟩ := Prod.mk.inj heq
  cases g with
  | leaf => cases hopener
  | group o body c =>
    have hgroup : Tree.IsDelimited o (Tree.joinedAfter 0 body) c :=
      Tree.Within.isDelimited hts (.here (List.mem_of_getElem? hmem))
    rw [Tree.joined] at herror
    exact ⟨o, _, c, hgroup, herror, (recognize_located hgroup rfl herror).2.1⟩

end Declaration
end NodeSchema
