import NodeSchema.Proofs.Declaration.Call
import NodeSchema.Proofs.Rust.Parser

/-!
# Enums that are put together

The entries of an enum of wrapped nodes are copied one by one, each with a comma of its own
(`exists_of_copyEntries`).  What is recognised is what the text declares that they are put together
to (`CallBody.reassembled`, `exists_of_recognizeEnumOfStructs`).

So every call of the three forms is read from a copy of it, and what is recognised is what the copy
declares (`exists_copy_of_recognize`).
-/

set_option autoImplicit false

namespace NodeSchema
namespace Declaration

open Rust Text

/-! ## Entries that wrap nodes -/

/-- An entry of an enum of wrapped nodes, with the comma behind it. -/
structure EntryBody where
  attributes : List Tree
  name : Token
  payload : Option Tree
  comma : Tree

namespace EntryBody

/-- The tokens of an entry. -/
def trees (e : EntryBody) : List Tree :=
  e.attributes ++ .leaf e.name :: (e.payload.toList ++ [e.comma])

/-- The tokens of entries. -/
def all (es : List EntryBody) : List Tree := es.flatMap trees

/-- An entry has a name, and what it carries is a path in parentheses. -/
structure IsProper (e : EntryBody) : Prop where
  attributes : Cursor.AreAttributes e.attributes
  name : e.name.isIdentifier = true
  payload : ∀ t ∈ e.payload, t.opener? = some "(" ∧ isPath t.renderBody = true
  comma : e.comma.text = ","

/-- The text that an entry is copied to. -/
def bytes (source : Source) (e : EntryBody) : List UInt8 :=
  attributeBytes source e.attributes " " ++
    (source.slice e.name.start (e.name.start + (bytesOf e.name.text).length) ++
      ((e.payload.elim [] fun t ↦ source.slice t.start t.stop) ++ bytesOf ",\n"))

end EntryBody

/-- The text that the entries of a call are put together to. -/
def CallBody.reassembled (source : Source) (c : CallBody) (es : List EntryBody) : List UInt8 :=
  c.headBytes source .enumOfStructs ++
    (bytesOf "\x7b\n" ++ (es.flatMap (EntryBody.bytes source) ++ bytesOf "\x7d\n"))

/-- An entry whose comma and whatever follows it are copied. -/
theorem exists_of_entry {fuel : Nat} {c : Cursor} {s s₁ s' : Snippet} {attributes later : List Tree}
    {name : Token} (payload : Option Tree)
    (ih : ∀ {c : Cursor} {s : Snippet}, c.rest.length < fuel → copyEntries fuel c s = .ok s' →
      ∃ es : List EntryBody, c.rest = EntryBody.all es ∧ (∀ e ∈ es, e.IsProper) ∧
        s'.bytes = s.bytes ++ es.flatMap (EntryBody.bytes s.origin))
    (hattributes : Cursor.AreAttributes attributes) (hname : name.isIdentifier = true)
    (hpayload : ∀ t ∈ payload, t.opener? = some "(" ∧ isPath t.renderBody = true)
    (horigin : s₁.origin = s.origin)
    (hbytes : s₁.bytes = s.bytes ++ (attributeBytes s.origin attributes " " ++
      (s.origin.slice name.start (name.start + (bytesOf name.text).length) ++
        payload.elim [] fun t ↦ s.origin.slice t.start t.stop)))
    (hrest : c.rest = later) (hfuel : later.length ≤ fuel)
    (h : (c.expect "," >>= fun r ↦ copyEntries fuel r.2 (s₁.write ",\n")) = .ok s') :
    ∃ es : List EntryBody, attributes ++ .leaf name :: (payload.toList ++ later) =
      EntryBody.all es ∧ (∀ e ∈ es, e.IsProper) ∧
        s'.bytes = s.bytes ++ es.flatMap (EntryBody.bytes s.origin) := by
  subst hrest
  obtain ⟨⟨comma, c'⟩, hcomma, h⟩ := bind_eq_ok.mp h
  obtain ⟨later, hrest, htext, rfl⟩ := Cursor.exists_of_expect hcomma
  have hlater := Cursor.rest_advance_one hrest
  rw [hrest, List.length_cons] at hfuel
  obtain ⟨es, hes, hproper, hall⟩ := ih (by rw [hlater]; exact hfuel) h
  refine ⟨⟨attributes, name, payload, comma⟩ :: es, ?_, List.forall_mem_cons.mpr
    ⟨⟨hattributes, hname, hpayload, htext⟩, hproper⟩, ?_⟩
  · rw [hrest, ← hlater, hes]
    simp [EntryBody.all, EntryBody.trees]
  · have hsame : (s₁.write ",\n").origin = s.origin := horigin
    rw [hall, Snippet.bytes_write, hbytes, hsame]
    simp [EntryBody.bytes]

/-- **Entries are copied one by one.** -/
theorem exists_of_copyEntries {fuel : Nat} {c : Cursor} {s s' : Snippet}
    (hfuel : c.rest.length < fuel) (h : copyEntries fuel c s = .ok s') :
    ∃ es : List EntryBody, c.rest = EntryBody.all es ∧ (∀ e ∈ es, e.IsProper) ∧
      s'.bytes = s.bytes ++ es.flatMap (EntryBody.bytes s.origin) := by
  induction fuel generalizing c s with
  | zero => cases hfuel
  | succ fuel ih =>
    rw [copyEntries] at h
    split at h
    · next hend =>
      cases h
      exact ⟨[], Cursor.rest_eq_nil_iff.mpr hend, fun _ he ↦ absurd he List.not_mem_nil,
        (List.append_nil _).symm⟩
    obtain ⟨attributes, later, hrest, hattributes, -, hskip⟩ := Cursor.exists_attributes c
    rw [hskip] at h
    obtain ⟨⟨ident, c₂⟩, hname, h⟩ := bind_eq_ok.mp h
    have hfirst := Cursor.rest_advance_length hrest
    obtain ⟨name, later₁, hrest₁, hident, rfl, rfl⟩ := Cursor.exists_of_expectIdentifier hname
    obtain rfl := hfirst.symm.trans hrest₁
    have hbehind := Cursor.rest_advance_one hfirst
    have hshort : later₁.length < fuel := by
      rw [hrest, List.length_append, List.length_cons] at hfuel
      omega
    -- The snippet with the attributes and the name of the entry.
    obtain ⟨s₁, hs₁⟩ : ∃ s₁, (copyAttributes s (Cursor.reach attributes) " ").copy
      (Tree.leaf name).start ((Tree.leaf name).start + (bytesOf name.text).length) = s₁ :=
      ⟨_, rfl⟩
    have horigin : s₁.origin = s.origin := by
      rw [← hs₁]
      exact origin_copyAttributes s _ " "
    have hbytes : s₁.bytes = s.bytes ++ (attributeBytes s.origin attributes " " ++
        s.origin.slice name.start (name.start + (bytesOf name.text).length)) := by
      rw [← hs₁, Snippet.bytes_copy, bytes_copyAttributes, origin_copyAttributes,
        List.append_assoc]
      rfl
    rw [hrest]
    dsimp only at h
    rw [Cursor.offset_of_rest hfirst, Cursor.peek_zero, hbehind, hs₁] at h
    have hplain := exists_of_entry none ih hattributes hident nofun horigin
      (by rw [hbytes]; simp) hbehind (Nat.le_of_lt hshort)
    cases later₁ with
    | nil => exact hplain h
    | cons t later₂ =>
      rw [List.head?_cons] at h
      dsimp only at h
      split at h
      · next hopener =>
        split at h
        · next hpath =>
          have hcopied : (s₁.copy t.start t.stop).bytes = s.bytes ++
              (attributeBytes s.origin attributes " " ++
                (s.origin.slice name.start (name.start + (bytesOf name.text).length) ++
                  s.origin.slice t.start t.stop)) := by
            rw [Snippet.bytes_copy, hbytes, horigin]
            simp only [List.append_assoc]
          exact exists_of_entry (some t) ih hattributes hident
            (fun u hu ↦ Option.some.inj hu ▸ ⟨hopener, hpath⟩)
            (show (s₁.copy t.start t.stop).origin = s.origin from horigin) hcopied
            (Cursor.rest_advance_one hbehind) (Nat.le_of_lt (Nat.lt_of_succ_lt hshort)) h
        · cases h
      · exact hplain h

/-! ## What is recognised -/

section Recognized

variable [FileParser] {source : Source} {g : Tree} {d : Declaration}

/-- The call has braces behind the name and nothing behind them, and the braces hold the entries. -/
def CallBody.Holds (c : CallBody) (es : List EntryBody) : Prop :=
  ∃ braces, c.rest = [braces] ∧ braces.opener? = some "\x7b" ∧ braces.body = EntryBody.all es ∧
    ∀ e ∈ es, e.IsProper

/-- **What is recognised as an enum of wrapped nodes**: what the entries of a call are put together
to. -/
theorem exists_of_recognizeEnumOfStructs (h : recognizeEnumOfStructs source g = .ok d) :
    ∃ (c : CallBody) (es : List EntryBody), g.body = c.trees ∧ c.IsProper .enumOfStructs ∧
      c.marker = [] ∧ c.Holds es ∧ DeclaresEnum (c.reassembled source es) d := by
  have hsteps := h
  obtain ⟨⟨x, c₁⟩, hpub, h⟩ := bind_eq_ok.mp h
  obtain ⟨⟨y, c₂⟩, hkeyword, h⟩ := bind_eq_ok.mp h
  obtain ⟨⟨ident, c₃⟩, hname, -⟩ := bind_eq_ok.mp h
  obtain ⟨c, hbody, hc⟩ := exists_callBody .enumOfStructs hpub hkeyword hname
  have hnil : c.marker = [] := by
    rcases hc.marker with ⟨hnil, -⟩ | ⟨_, hmem, -⟩
    · exact hnil
    · cases hmem
  obtain ⟨hskip, hpub, hkeyword, hname, hrest⟩ := steps_of_trees source hc hbody
  rw [Form.keyword] at hkeyword
  rw [hnil, List.nil_append] at hrest
  rw [recognizeEnumOfStructs, hskip] at hsteps
  dsimp only at hsteps
  rw [hpub] at hsteps
  dsimp only [bind, Except.bind] at hsteps
  rw [hkeyword] at hsteps
  dsimp only at hsteps
  rw [hname] at hsteps
  obtain ⟨⟨braces, c₄⟩, hbraces, h⟩ := bind_eq_ok.mp hsteps
  obtain ⟨later, hlater, hopener, rfl⟩ := Cursor.exists_of_expectGroup hbraces
  obtain ⟨_, hend, h⟩ := bind_eq_ok.mp h
  obtain ⟨s, hs, h⟩ := bind_eq_ok.mp h
  obtain rfl : later = [] :=
    (Cursor.rest_advance_one hlater).symm.trans (Cursor.rest_of_expectEnd hend)
  obtain ⟨es, hes, hproper, hbytes⟩ := exists_of_copyEntries
    (by rw [Cursor.rest_ofGroup]; exact Nat.lt_succ_self _) hs
  refine ⟨c, es, hbody, hc, hnil, ⟨braces, hrest.symm.trans hlater, hopener, hes, hproper⟩, ?_⟩
  have horigin : ((copyAttributes (Snippet.empty source braces.start) (Cursor.reach c.attributes)
      "\n").write ("pub enum " ++ c.name.text ++ " \x7b\n")).origin = source :=
    origin_copyAttributes (Snippet.empty source braces.start) _ "\n"
  have hcopied : (s.write "\x7d\n").bytes = c.reassembled source es := by
    have hopener : bytesOf " \x7b\n" = bytesOf " " ++ bytesOf "\x7b\n" := by decide
    have hhead : bytesOf ("pub enum " ++ c.name.text ++ " \x7b\n") =
        bytesOf ("pub enum " ++ c.name.text ++ " ") ++ bytesOf "\x7b\n" := by
      rw [bytesOf_append _ " \x7b\n", bytesOf_append _ " ", hopener, List.append_assoc]
    rw [Snippet.bytes_write, hbytes, horigin, Snippet.bytes_write, bytes_copyAttributes, hhead,
      CallBody.reassembled, CallBody.headBytes]
    simp only [List.append_assoc]
    rfl
  rw [← hcopied]
  exact enumOf_eq_ok_iff.mp h

/-! ## All forms -/

/-- The text is what a call of the form is read from. -/
def CallBody.IsCopy (source : Source) (form : Form) (c : CallBody) (close : Nat)
    (bytes : List UInt8) : Prop :=
  match form with
  | .struct | .enum => bytes = c.copied source form close
  | .enumOfStructs => ∃ es, c.Holds es ∧ bytes = c.reassembled source es

/-- The text declares what a call of the form is recognised as. -/
def CallBody.Declares (form : Form) (c : CallBody) (bytes : List UInt8) (d : Declaration) : Prop :=
  match form with
  | .struct => DeclaresStruct bytes (!c.marker.isEmpty) d
  | .enum | .enumOfStructs => DeclaresEnum bytes d

/-- A text that declares something holds one item, which has the name of the declaration. -/
theorem CallBody.Declares.holdsOne {form : Form} {c : CallBody} {bytes : List UInt8}
    (h : c.Declares form bytes d) :
    ∃ i, HoldsOne bytes form.kind i ∧ d.ident = i.item.name.getD "" := by
  cases form with
  | struct =>
    obtain ⟨i, body, d', hi, -, hd', rfl⟩ := h
    have hident := ident_ofStruct hd'
    exact ⟨i, hi, hident⟩
  | enum | enumOfStructs =>
    obtain ⟨i, variants, hi, -, hd⟩ := h
    exact ⟨i, hi, ident_ofEnum hd⟩

/-- **What is recognised in a call** is what its copy declares. -/
theorem exists_copy_of_recognize {form : Form} {text : String} {start : Nat}
    (h : recognize source ⟨form.name, g, text, start⟩ = .ok (some d)) :
    ∃ (c : CallBody) (bytes : List UInt8), g.body = c.trees ∧ c.IsProper form ∧
      (form ≠ .struct → c.marker = []) ∧ c.IsCopy source form (g.stop - 1) bytes ∧
        c.Declares form bytes d := by
  rw [recognize, ofName?_name] at h
  cases form with
  | struct =>
    obtain ⟨d', hd', h⟩ := map_eq_ok.mp h
    obtain ⟨c, hbody, hc, hd⟩ := recognizeStruct_eq_ok_iff.mp hd'
    exact ⟨c, _, hbody, hc, fun h ↦ absurd rfl h, rfl, Option.some.inj h ▸ hd⟩
  | enum =>
    obtain ⟨c, hbody, hc, ⟨-, h⟩ | ⟨hnil, d', hd', hd⟩⟩ := recognizeEnum_eq_ok_iff.mp h
    · cases h
    · exact ⟨c, _, hbody, hc, fun _ ↦ hnil, rfl, Option.some.inj hd' ▸ hd⟩
  | enumOfStructs =>
    obtain ⟨d', hd', h⟩ := map_eq_ok.mp h
    obtain ⟨c, es, hbody, hc, hnil, hes, hd⟩ := exists_of_recognizeEnumOfStructs hd'
    exact ⟨c, _, hbody, hc, fun _ ↦ hnil, ⟨es, hes, rfl⟩, Option.some.inj h ▸ hd⟩

/-- **A call is passed over** only because of the marker of an enum. -/
theorem exists_marker_of_recognize {form : Form} {text : String} {start : Nat}
    (h : recognize source ⟨form.name, g, text, start⟩ = .ok none) :
    form = .enum ∧ ∃ c : CallBody, g.body = c.trees ∧ c.IsProper form ∧ c.marker ≠ [] := by
  rw [recognize, ofName?_name] at h
  cases form with
  | struct | enumOfStructs =>
    obtain ⟨d', -, h⟩ := map_eq_ok.mp h
    cases h
  | enum =>
    obtain ⟨c, hbody, hc, ⟨hne, -⟩ | ⟨-, d', hd', -⟩⟩ := recognizeEnum_eq_ok_iff.mp h
    · exact ⟨rfl, c, hbody, hc, hne⟩
    · cases hd'

end Recognized

/-! ## The head of a copy -/

section Head

variable {source : Source} {form : Form} {c : CallBody}

theorem attributeBytes_eq (source : Source) (attributes : List Tree) (separator : String) :
    attributeBytes source attributes separator =
      ((Cursor.reach attributes).map fun r ↦ source.slice r.1 r.2).elim []
        fun run ↦ run ++ bytesOf separator := by
  rw [attributeBytes]
  cases Cursor.reach attributes <;> rfl

/-- The attributes that a recogniser copies, as they are written. -/
def CallBody.run (source : Source) (form : Form) (c : CallBody) : Option (List UInt8) :=
  (Cursor.reach (c.kept form)).map fun r ↦ source.slice r.1 r.2

theorem CallBody.headBytes_eq (source : Source) (form : Form) (c : CallBody) :
    c.headBytes source form = headText (c.run source form) form.keyword c.name.text := by
  rw [headBytes, attributeBytes_eq]
  rfl

/-- A copy of a call begins with its head. -/
theorem CallBody.IsCopy.exists_eq {close : Nat} {bytes : List UInt8}
    (h : c.IsCopy source form close bytes) :
    ∃ rest, bytes = headText (c.run source form) form.keyword c.name.text ++ rest := by
  rw [← headBytes_eq]
  cases form with
  | struct | enum => exact ⟨_, h⟩
  | enumOfStructs =>
    obtain ⟨es, -, rfl⟩ := h
    exact ⟨_, rfl⟩

theorem Form.keyword_mem (form : Form) : form.keyword ∈ ["struct", "enum"] := by
  cases form <;> decide

/-- The attributes and the name of a call are code. -/
theorem CallBody.isCode (form : Form) {isCode isTrivia : List UInt8 → Prop} {g : Tree}
    (hg : g.StandsIn source isCode isTrivia) (hbody : g.body = c.trees) :
    (∀ run ∈ c.run source form, isCode run) ∧ isCode (bytesOf c.name.text) := by
  cases hg with
  | leaf => exact absurd hbody.symm (by simp [trees, Tree.body])
  | group order opener stop closer pair laid code within =>
    obtain rfl := hbody
    constructor
    · intro run hrun
      obtain ⟨r, hr, rfl⟩ := Option.map_eq_some_iff.mp hrun
      cases form with
      | struct => cases hr
      | enum | enumOfStructs => exact code c.attributes (List.prefix_append ..).isInfix r hr
    · have hmem : [Tree.leaf c.name] <:+: c.trees :=
        ⟨c.attributes ++ [c.pub, c.keyword], c.marker ++ c.rest, by simp [trees]⟩
      have hname : Tree.StandsIn source isCode isTrivia (.leaf c.name) :=
        within _ (hmem.subset (List.mem_singleton_self _))
      cases hname with
      | leaf text => exact text ▸ code _ hmem _ rfl

end Head

end Declaration
end NodeSchema
