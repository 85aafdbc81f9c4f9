import NodeSchema.Proofs.Declaration
import NodeSchema.Proofs.Rust.OneItem
import NodeSchema.Proofs.Rust.Snippet
import NodeSchema.Proofs.Text.Boundary

/-!
# The inside of a call

A call that declares a node holds attributes, the word `pub`, the word of its form, a name, a marker
if there is one, and what follows (`CallBody`).  Tokens are the inside of a call in one way only
(`CallBody.eq_of_trees`).

A recogniser walks over the head of a call, writes it anew, and copies what follows it
(`CallBody.copied`); what it recognises is what the copy declares (`recognizeStruct_eq_ok_iff`,
`recognizeEnum_eq_ok_iff`).
-/

set_option autoImplicit false

namespace NodeSchema
namespace Declaration

open Rust Text

/-! ## Forms -/

/-- The word of a form, behind `pub`. -/
def Form.keyword : Form → String
  | .struct => "struct"
  | .enum | .enumOfStructs => "enum"

/-- The kind of the item that a form declares. -/
def Form.kind : Form → ItemKind
  | .struct => .struct
  | .enum | .enumOfStructs => .enum

/-- The marker that may stand behind the name. -/
def Form.marker? : Form → Option String
  | .struct => some fullMarker
  | .enum => some noVisitMarker
  | .enumOfStructs => none

/-- The tokens are a number sign and the given identifier. -/
def IsMarker (name : String) (ts : List Tree) : Prop :=
  ∃ hash u, ts = [hash, .leaf u] ∧ hash.text = "#" ∧ u.isIdentifier = true ∧ u.text = name

/-! ## Calls -/

/-- The inside of a call that declares a node. -/
structure CallBody where
  attributes : List Tree
  pub : Tree
  keyword : Tree
  name : Token
  marker : List Tree
  /-- What stands behind the name and the marker. -/
  rest : List Tree

namespace CallBody

/-- The tokens of the inside of a call. -/
def trees (c : CallBody) : List Tree :=
  c.attributes ++ c.pub :: c.keyword :: .leaf c.name :: (c.marker ++ c.rest)

/-- The tokens are those of a call of the form. -/
structure IsProper (form : Form) (c : CallBody) : Prop where
  attributes : Cursor.AreAttributes c.attributes
  pub : c.pub.text = "pub"
  keyword : c.keyword.text = form.keyword
  name : c.name.isIdentifier = true
  marker : (c.marker = [] ∧ ∀ name ∈ form.marker?, ¬ Cursor.BeginsMarker name c.rest) ∨
    ∃ name ∈ form.marker?, IsMarker name c.marker

variable {form : Form} {c c' : CallBody}

/-! ### Only one way -/

/-- Attributes end where a token stands that begins none. -/
theorem eq_of_attributes_append {as bs ts us : List Tree} {p q : Tree}
    (has : Cursor.AreAttributes as) (hbs : Cursor.AreAttributes bs) (hp : p.text ≠ "#")
    (hq : q.text ≠ "#") (h : as ++ p :: ts = bs ++ q :: us) : as = bs ∧ p :: ts = q :: us := by
  induction has generalizing bs with
  | nil =>
    cases hbs with
    | nil => exact ⟨rfl, h⟩
    | cons hhash => exact absurd hhash ((List.cons.inj h).1 ▸ hp)
  | cons hhash _ _ ih =>
    cases hbs with
    | nil => exact absurd hhash ((List.cons.inj h).1.symm ▸ hq)
    | cons _ _ hbs =>
      obtain ⟨hhash, h⟩ := List.cons.inj h
      obtain ⟨hbrackets, h⟩ := List.cons.inj h
      obtain ⟨hlater, h⟩ := ih hbs h
      exact ⟨by rw [hhash, hbrackets, hlater], h⟩

theorem beginsMarker_append {name : String} {marker : List Tree} (h : IsMarker name marker)
    (ts : List Tree) : Cursor.BeginsMarker name (marker ++ ts) := by
  obtain ⟨hash, u, rfl, hhash, hu, hname⟩ := h
  exact ⟨hash, u, ts, rfl, hhash, hu, hname⟩

/-- **Tokens are the inside of a call in one way only.** -/
theorem eq_of_trees (hc : c.IsProper form) (hc' : c'.IsProper form) (h : c.trees = c'.trees) :
    c = c' := by
  have hpub {c : CallBody} (hc : c.IsProper form) : c.pub.text ≠ "#" := by
    rw [hc.pub]
    decide
  obtain ⟨hattributes, htail⟩ :=
    eq_of_attributes_append hc.attributes hc'.attributes (hpub hc) (hpub hc') h
  obtain ⟨hpub, htail⟩ := List.cons.inj htail
  obtain ⟨hkeyword, htail⟩ := List.cons.inj htail
  obtain ⟨hname, htail⟩ := List.cons.inj htail
  have hmarker : c.marker = c'.marker ∧ c.rest = c'.rest := by
    rcases hc.marker with ⟨hnil, hnone⟩ | ⟨name, hmem, hmarker⟩ <;>
      rcases hc'.marker with ⟨hnil', hnone'⟩ | ⟨name', hmem', hmarker'⟩
    · rw [hnil, hnil'] at htail
      exact ⟨hnil.trans hnil'.symm, htail⟩
    · rw [hnil, List.nil_append] at htail
      exact absurd (htail ▸ beginsMarker_append hmarker' c'.rest) (hnone name' hmem')
    · rw [hnil', List.nil_append] at htail
      exact absurd (htail ▸ beginsMarker_append hmarker c.rest) (hnone' name hmem)
    · obtain ⟨hash, u, heq, -⟩ := hmarker
      obtain ⟨hash', u', heq', -⟩ := hmarker'
      rw [heq, heq'] at htail
      obtain ⟨hhash, htail⟩ := List.cons.inj htail
      obtain ⟨hu, hrest⟩ := List.cons.inj htail
      exact ⟨by rw [heq, heq', hhash, hu], hrest⟩
  obtain ⟨attributes, pub, keyword, name, marker, rest⟩ := c
  obtain ⟨attributes', pub', keyword', name', marker', rest'⟩ := c'
  have hname : name = name' := Tree.leaf.inj hname
  simp only at hattributes hpub hkeyword hmarker
  rw [hattributes, hpub, hkeyword, hname, hmarker.1, hmarker.2]

end CallBody

/-! ## What is copied -/

/-- The bytes of attributes and of what separates them from what follows. -/
def attributeBytes (source : Source) (attributes : List Tree) (separator : String) : List UInt8 :=
  match Cursor.reach attributes with
  | some (start, stop) => source.slice start stop ++ bytesOf separator
  | none => []

/-- The bytes that are copied from the rest of a call. -/
def restBytes (source : Source) (close : Nat) : List Tree → List UInt8
  | [] => []
  | t :: _ => source.slice t.start close

namespace CallBody

/-- The attributes that a recogniser copies. -/
def kept (form : Form) (c : CallBody) : List Tree :=
  match form with
  | .struct => []
  | .enum | .enumOfStructs => c.attributes

/-- The head that a recogniser writes anew. -/
def headBytes (source : Source) (form : Form) (c : CallBody) : List UInt8 :=
  attributeBytes source (c.kept form) "\n" ++
    bytesOf ("pub " ++ form.keyword ++ " " ++ c.name.text ++ " ")

/-- The text that a call is copied to as it stands: up to the given place, behind a head that is
written anew. -/
def copied (source : Source) (form : Form) (c : CallBody) (close : Nat) : List UInt8 :=
  c.headBytes source form ++ restBytes source close c.rest

end CallBody

section Bytes

variable (s : Snippet)

theorem origin_copyAttributes (range : Option (Nat × Nat)) (separator : String) :
    (copyAttributes s range separator).origin = s.origin := by
  cases range <;> rfl

theorem bytes_copyAttributes (attributes : List Tree) (separator : String) :
    (copyAttributes s (Cursor.reach attributes) separator).bytes =
      s.bytes ++ attributeBytes s.origin attributes separator := by
  rw [attributeBytes]
  cases Cursor.reach attributes with
  | none => exact (List.append_nil _).symm
  | some r => rw [copyAttributes, Snippet.bytes_write, Snippet.bytes_copy, List.append_assoc]

theorem bytes_copyRest (c : Cursor) :
    (copyRest s c).bytes = s.bytes ++ restBytes s.origin c.close c.rest := by
  rw [copyRest]
  cases hrest : c.rest with
  | nil =>
    rw [if_pos (Cursor.rest_eq_nil_iff.mp hrest)]
    exact (List.append_nil _).symm
  | cons t ts =>
    rw [Cursor.atEnd_of_rest hrest, if_neg Bool.false_ne_true, Snippet.bytes_copy,
      Cursor.offset_of_rest hrest, restBytes]

/-- The snippet of a head that is written anew, with the rest of a call behind it. -/
theorem bytes_copy (source : Source) (form : Form) (c : CallBody) (anchor : Nat) {cursor : Cursor}
    (hrest : cursor.rest = c.rest) :
    (copyRest ((copyAttributes (Snippet.empty source anchor) (Cursor.reach (c.kept form))
      "\n").write ("pub " ++ form.keyword ++ " " ++ c.name.text ++ " ")) cursor).bytes =
        c.copied source form cursor.close := by
  have horigin : ((copyAttributes (Snippet.empty source anchor) (Cursor.reach (c.kept form))
      "\n").write ("pub " ++ form.keyword ++ " " ++ c.name.text ++ " ")).origin = source :=
    origin_copyAttributes (Snippet.empty source anchor) _ "\n"
  rw [bytes_copyRest, Snippet.bytes_write, bytes_copyAttributes, horigin, hrest,
    CallBody.copied, CallBody.headBytes]
  rfl

end Bytes

/-! ## The steps of a recogniser -/

section Steps

variable {source : Source} {g : Tree} {form : Form} {c : CallBody}

/-- Where a cursor stands that has passed over the head of a call. -/
def CallBody.behindHead (source : Source) (g : Tree) (c : CallBody) : Cursor :=
  ((Cursor.ofGroup source g).advance c.attributes.length).advance 3

variable (source) in
/-- How a cursor passes over the head of a call. -/
theorem steps_of_trees (hc : c.IsProper form) (hbody : g.body = c.trees) :
    let first := (Cursor.ofGroup source g).advance c.attributes.length
    (Cursor.ofGroup source g).skipAttributes = (Cursor.reach c.attributes, first) ∧
      first.expect "pub" = .ok (c.pub, first.advance 1) ∧
      (first.advance 1).expect form.keyword = .ok (c.keyword, first.advance 2) ∧
      (first.advance 2).expectIdentifier = .ok (c.name.text, c.behindHead source g) ∧
      (c.behindHead source g).rest = c.marker ++ c.rest := by
  have hpub : c.pub.text ≠ "#" := by rw [hc.pub]; decide
  have hfirst := Cursor.rest_advance_length ((Cursor.rest_ofGroup source g).trans hbody)
  have hsteps := Cursor.head_of_rest hfirst hc.name
  rw [hc.pub, hc.keyword] at hsteps
  exact ⟨Cursor.skipAttributes_of_append hbody hc.attributes
    (Cursor.not_beginsAttribute_of_text_ne hpub), hsteps⟩

variable (form) in
/-- A cursor that has passed over a head has passed over the head of a call. -/
theorem exists_callBody {c₁ c₂ c₃ : Cursor} {x y : Tree} {ident : String}
    (hpub : (Cursor.ofGroup source g).skipAttributes.2.expect "pub" = .ok (x, c₁))
    (hkeyword : c₁.expect form.keyword = .ok (y, c₂))
    (hname : c₂.expectIdentifier = .ok (ident, c₃)) :
    ∃ c : CallBody, g.body = c.trees ∧ c.IsProper form := by
  obtain ⟨attributes, later, hbody, hattributes, -, hskip⟩ :=
    Cursor.exists_attributes (Cursor.ofGroup source g)
  rw [Cursor.rest_ofGroup] at hbody
  rw [hskip] at hpub
  have hfirst := Cursor.rest_advance_length ((Cursor.rest_ofGroup source g).trans hbody)
  obtain ⟨later₁, hrest₁, hpubText, rfl⟩ := Cursor.exists_of_expect hpub
  obtain rfl := hfirst.symm.trans hrest₁
  obtain ⟨later₂, hrest₂, hkeywordText, rfl⟩ := Cursor.exists_of_expect hkeyword
  obtain rfl := (Cursor.rest_advance_one hfirst).symm.trans hrest₂
  obtain ⟨name, later₃, hrest₃, hident, -, -⟩ := Cursor.exists_of_expectIdentifier hname
  obtain rfl := (Cursor.rest_advance_one hrest₂).symm.trans hrest₃
  -- What follows the name may begin with the marker of the form, if the form has one.
  by_cases hmarker : ∃ marker ∈ form.marker?, Cursor.BeginsMarker marker later₃
  · obtain ⟨marker, hmem, hash, u, rest, rfl, hhash, hu, htext⟩ := hmarker
    exact ⟨⟨attributes, x, y, name, [hash, .leaf u], rest⟩, hbody,
      ⟨hattributes, hpubText, hkeywordText, hident,
        .inr ⟨marker, hmem, hash, u, rfl, hhash, hu, htext⟩⟩⟩
  · exact ⟨⟨attributes, x, y, name, [], later₃⟩, hbody,
      ⟨hattributes, hpubText, hkeywordText, hident,
        .inl ⟨rfl, fun marker hmem h ↦ hmarker ⟨marker, hmem, h⟩⟩⟩⟩

/-- A cursor that has passed over a head eats the marker if there is one. -/
theorem eatMarker_behindHead (hc : c.IsProper form) (hbody : g.body = c.trees) {name : String}
    (hname : form.marker? = some name) :
    (c.marker = [] ∧ (c.behindHead source g).eatMarker name = (false, c.behindHead source g) ∧
        (c.behindHead source g).rest = c.rest) ∨
      c.marker ≠ [] ∧ (c.behindHead source g).eatMarker name =
          (true, (c.behindHead source g).advance 2) ∧
        ((c.behindHead source g).advance 2).rest = c.rest := by
  obtain ⟨-, -, -, -, hrest⟩ := steps_of_trees source hc hbody
  rcases hc.marker with ⟨hnil, hnone⟩ | ⟨name', hmem, hash, u, hmarker, hhash, hu, rfl⟩
  · rw [hnil, List.nil_append] at hrest
    refine .inl ⟨hnil, Cursor.eatMarker_of_not_beginsMarker ?_, hrest⟩
    rw [hrest]
    exact hnone name hname
  · rw [hmarker] at hrest
    obtain rfl : u.text = name := Option.some.inj (hmem.symm.trans hname)
    refine .inr ⟨?_, Cursor.eatMarker_of_marker hrest hhash hu, ?_⟩
    · rw [hmarker]
      exact List.cons_ne_nil _ _
    · rw [Cursor.rest_advance, hrest]
      rfl

end Steps

/-! ## What is recognised -/

variable [FileParser]

/-- The text holds one struct, which is the declaration with the features of the marker. -/
def DeclaresStruct (bytes : List UInt8) (isFull : Bool) (d : Declaration) : Prop :=
  ∃ i body d', HoldsOne bytes .struct i ∧ i.item.body = .struct body ∧
    ofStruct (i.item.name.getD "") body = .ok d' ∧
    d = { d' with features := if isFull then .ofList [fullMarker] else .always }

/-- The text holds one enum, which is the declaration. -/
def DeclaresEnum (bytes : List UInt8) (d : Declaration) : Prop :=
  ∃ i variants, HoldsOne bytes .enum i ∧ i.item.body = .enum variants ∧
    ofEnum (i.item.name.getD "") i.attributes variants = .ok d

theorem enumOf_eq_ok_iff {s : Snippet} {d : Declaration} :
    enumOf s = .ok d ↔ DeclaresEnum s.bytes d := by
  rw [enumOf, bind_eq_ok]
  constructor
  · rintro ⟨i, hi, h⟩
    split at h
    · next variants hbody => exact ⟨i, variants, item_eq_ok_iff.mp hi, hbody, h⟩
    · cases h
  · rintro ⟨i, variants, hi, hbody, h⟩
    refine ⟨i, item_eq_ok_iff.mpr hi, ?_⟩
    rw [hbody]
    exact h

variable {source : Source} {g : Tree} {d : Declaration}

/-- Reads the struct that a snippet holds. -/
def structOf (s : Snippet) (path : String) (isFull : Bool) : Except Failure Declaration := do
  let i ← s.item ItemKind.struct.name
  match i.item.body with
  | .struct body =>
    let d ← ofStruct (i.item.name.getD "") body
    .ok { d with features := if isFull then .ofList [fullMarker] else .always }
  | _ => .error (.unparsable path)

theorem structOf_eq_ok_iff {s : Snippet} {path : String} {isFull : Bool} :
    structOf s path isFull = .ok d ↔ DeclaresStruct s.bytes isFull d := by
  rw [structOf, bind_eq_ok]
  constructor
  · rintro ⟨i, hi, h⟩
    split at h
    · next body hbody =>
      obtain ⟨d', hd', h⟩ := bind_eq_ok.mp h
      exact ⟨i, body, d', item_eq_ok_iff.mp hi, hbody, hd', (Except.ok.inj h).symm⟩
    · cases h
  · rintro ⟨i, body, d', hi, hbody, hd', rfl⟩
    refine ⟨i, item_eq_ok_iff.mpr hi, ?_⟩
    rw [hbody]
    exact bind_eq_ok.mpr ⟨d', hd', rfl⟩

/-- The call of a struct is read from its copy. -/
theorem recognizeStruct_of_trees {c : CallBody} (hc : c.IsProper .struct)
    (hbody : g.body = c.trees) : recognizeStruct source g = .ok d ↔
      DeclaresStruct (c.copied source .struct (g.stop - 1)) (!c.marker.isEmpty) d := by
  obtain ⟨hskip, hpub, hkeyword, hname, -⟩ := steps_of_trees source hc hbody
  have hstep : recognizeStruct source g =
      structOf (copyRest ((Snippet.empty source
        ((c.behindHead source g).eatMarker fullMarker).2.offset).write
          ("pub struct " ++ c.name.text ++ " ")) ((c.behindHead source g).eatMarker fullMarker).2)
        source.path ((c.behindHead source g).eatMarker fullMarker).1 := by
    rw [Form.keyword] at hkeyword
    rw [recognizeStruct, hskip]
    dsimp only
    rw [hpub]
    dsimp only [bind, Except.bind]
    rw [hkeyword]
    dsimp only
    rw [hname]
    rfl
  have hcopy {cursor : Cursor} (hrest : cursor.rest = c.rest) (hclose : cursor.close = g.stop - 1) :
      (copyRest ((Snippet.empty source cursor.offset).write ("pub struct " ++ c.name.text ++ " "))
        cursor).bytes = c.copied source .struct (g.stop - 1) := by
    have hbytes := bytes_copy source .struct c cursor.offset hrest
    rwa [hclose] at hbytes
  rw [hstep, structOf_eq_ok_iff]
  rcases eatMarker_behindHead hc hbody rfl with ⟨hnil, heat, hrest⟩ | ⟨hne, heat, hrest⟩
  · rw [heat, hcopy hrest rfl, hnil]
    rfl
  · rw [heat, hcopy hrest rfl, List.isEmpty_eq_false_iff.mpr hne]
    rfl

/-- **What is recognised as a struct**: what the copy of a call declares. -/
theorem recognizeStruct_eq_ok_iff : recognizeStruct source g = .ok d ↔
    ∃ c : CallBody, g.body = c.trees ∧ c.IsProper .struct ∧
      DeclaresStruct (c.copied source .struct (g.stop - 1)) (!c.marker.isEmpty) d := by
  constructor
  · intro h
    have hsteps := h
    obtain ⟨⟨x, c₁⟩, hpub, h⟩ := bind_eq_ok.mp h
    obtain ⟨⟨y, c₂⟩, hkeyword, h⟩ := bind_eq_ok.mp h
    obtain ⟨⟨ident, c₃⟩, hname, -⟩ := bind_eq_ok.mp h
    obtain ⟨c, hbody, hc⟩ := exists_callBody .struct hpub hkeyword hname
    exact ⟨c, hbody, hc, (recognizeStruct_of_trees hc hbody).mp hsteps⟩
  · rintro ⟨c, hbody, hc, h⟩
    exact (recognizeStruct_of_trees hc hbody).mpr h

/-- The call of an enum is read from its copy, unless its marker excludes it. -/
theorem recognizeEnum_of_trees {c : CallBody} (hc : c.IsProper .enum) (hbody : g.body = c.trees)
    {x : Option Declaration} : recognizeEnum source g = .ok x ↔
      c.marker ≠ [] ∧ x = none ∨ c.marker = [] ∧ ∃ d, x = some d ∧
        DeclaresEnum (c.copied source .enum (g.stop - 1)) d := by
  obtain ⟨hskip, hpub, hkeyword, hname, -⟩ := steps_of_trees source hc hbody
  have hstep : recognizeEnum source g =
      if ((c.behindHead source g).eatMarker noVisitMarker).1 then .ok none
      else (enumOf (copyRest ((copyAttributes (Snippet.empty source
        ((c.behindHead source g).eatMarker noVisitMarker).2.offset) (Cursor.reach c.attributes)
          "\n").write ("pub enum " ++ c.name.text ++ " "))
            ((c.behindHead source g).eatMarker noVisitMarker).2)).map some := by
    rw [Form.keyword] at hkeyword
    rw [recognizeEnum, hskip]
    dsimp only
    rw [hpub]
    dsimp only [bind, Except.bind]
    rw [hkeyword]
    dsimp only
    rw [hname]
    rfl
  rw [hstep]
  rcases eatMarker_behindHead hc hbody rfl with ⟨hnil, heat, hrest⟩ | ⟨hne, heat, hrest⟩
  · have hbytes := bytes_copy source .enum c (c.behindHead source g).offset hrest
    rw [heat, if_neg Bool.false_ne_true, map_eq_ok]
    simp only [enumOf_eq_ok_iff, hnil, ne_eq, not_true_eq_false, false_and, true_and, false_or]
    refine exists_congr fun d ↦ ?_
    rw [and_comm, eq_comm]
    exact and_congr_right fun _ ↦ iff_of_eq (congrArg (DeclaresEnum · d) hbytes)
  · rw [heat, if_pos rfl]
    simp only [hne, ne_eq, not_false_eq_true, true_and, false_and, or_false]
    exact ⟨fun h ↦ (Except.ok.inj h).symm, fun h ↦ congrArg Except.ok h.symm⟩

/-- **What is recognised as an enum**: what the copy of a call declares. -/
theorem recognizeEnum_eq_ok_iff {x : Option Declaration} : recognizeEnum source g = .ok x ↔
    ∃ c : CallBody, g.body = c.trees ∧ c.IsProper .enum ∧
      (c.marker ≠ [] ∧ x = none ∨ c.marker = [] ∧ ∃ d, x = some d ∧
        DeclaresEnum (c.copied source .enum (g.stop - 1)) d) := by
  constructor
  · intro h
    have hsteps := h
    obtain ⟨⟨x, c₁⟩, hpub, h⟩ := bind_eq_ok.mp h
    obtain ⟨⟨y, c₂⟩, hkeyword, h⟩ := bind_eq_ok.mp h
    obtain ⟨⟨ident, c₃⟩, hname, -⟩ := bind_eq_ok.mp h
    obtain ⟨c, hbody, hc⟩ := exists_callBody .enum hpub hkeyword hname
    exact ⟨c, hbody, hc, (recognizeEnum_of_trees hc hbody).mp hsteps⟩
  · rintro ⟨c, hbody, hc, h⟩
    exact (recognizeEnum_of_trees hc hbody).mpr h

end Declaration
end NodeSchema
