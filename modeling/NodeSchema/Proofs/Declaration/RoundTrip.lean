import NodeSchema.Declaration.Printer
import NodeSchema.Proofs.Declaration.Entries
import NodeSchema.Proofs.Rust.Grammar.PlainType
import NodeSchema.Rust.Grammar.File

/-!
# Reading printed declarations back

A declaration is printed as the call of a macro.  A parser that reads the text as it is printed
(`IsRead`) finds the call, which is recognised as the declaration (`recognize_print`): what the call
is copied to is the text of the struct or the enum by itself (`copied_eq_itemText`), and the parser
reads that as it is printed too.

The call tells the features of a declaration only by the marker behind the name of a struct
(`spelledFeatures`), so a declaration comes back with its own features exactly if a struct has none
or `full` alone, and an enum has none.
-/

set_option autoImplicit false

namespace NodeSchema
namespace Declaration

open Rust Text

/-! ## Texts -/

section Text

variable (d : Declaration)

/-- The form that a declaration is printed in. -/
def form : Form :=
  match d.members with
  | .struct _ => .struct
  | .enum _ _ => .enum

/-- The attribute of an enum that may get more variants. -/
def printedAttribute : Option String :=
  match d.members with
  | .struct _ => none
  | .enum _ nonExhaustive => if nonExhaustive then some "#[non_exhaustive]" else none

/-- The line of the attribute. -/
def attributeLine : String := d.printedAttribute.elim "" (· ++ "\n")

/-- The marker behind the name of a struct. -/
def printedMarker : String :=
  match d.members with
  | .struct _ => if d.features = .ofList [fullMarker] then "#" ++ fullMarker ++ " " else ""
  | .enum _ _ => ""

/-- The words in front of the name, and the name. -/
def headLine : String := "pub " ++ d.form.keyword ++ " " ++ d.ident ++ " "

/-- The fields or the variants, between braces. -/
def printedMembers : String :=
  match d.members with
  | .struct fields => braced (String.join (fields.map printField))
  | .enum variants _ => braced (String.join (variants.map printVariant))

/-- The struct or the enum by itself. -/
def itemText : String := d.attributeLine ++ d.headLine ++ d.printedMembers

/-- What stands in a printed declaration in front of its members. -/
def printedFront : String :=
  d.form.name ++ "! \x7b\n" ++ d.attributeLine ++ d.headLine ++ d.printedMarker

/-- **A declaration is printed as a call of its own item.** -/
theorem print_eq : d.print = d.printedFront ++ d.printedMembers ++ "\x7d\n" := by
  obtain ⟨ident, members, features⟩ := d
  apply String.toList_inj.mp
  cases members with
  | struct fields =>
    simp only [print, printCall, printedFront, form, attributeLine, printedAttribute, printedMarker,
      headLine, printedMembers, Form.keyword, String.toList_append, List.append_assoc, braced,
      Option.elim_none]
    rfl
  | enum variants nonExhaustive =>
    cases nonExhaustive <;>
    · simp only [print, printCall, printedFront, form, attributeLine, printedAttribute,
        printedMarker, headLine, printedMembers, Form.keyword, String.toList_append,
        List.append_assoc, braced]
      rfl

end Text

/-! ## What is printed -/

/-- The fields of a printed struct have names, and their types are plain. -/
def ArePlain (fields : List Field) : Prop := ∀ f ∈ fields, IsIdentifier f.name ∧ f.type.IsPlain

/-- The variants of a printed enum have names, and the types in them are plain. -/
def ArePlainVariants (variants : List VariantDeclaration) : Prop :=
  ∀ v ∈ variants, IsIdentifier v.name ∧ ∀ t ∈ v.members, t.IsPlain

/-- The names of the declaration are identifiers, and its types are plain. -/
def IsPrintable (d : Declaration) : Prop :=
  IsIdentifier d.ident ∧
    match d.members with
    | .struct fields => ArePlain fields
    | .enum variants _ => ArePlainVariants variants

/-- The features that the call of a macro tells. -/
def spelledFeatures (d : Declaration) : Features :=
  match d.members with
  | .struct _ => if d.features = .ofList [fullMarker] then .ofList [fullMarker] else .always
  | .enum _ _ => .always

/-! ## What a parser finds -/

/-- The tokens of a printed call: the attribute if there is one, the head, the marker if there is
one, and the braces around the members, each at the place where it is printed. -/
structure IsCall (d : Declaration) (g : Tree) (c : CallBody) (braces : Tree) : Prop where
  body : g.body = c.trees
  proper : c.IsProper d.form
  name : c.name.text = d.ident
  marker : c.marker = [] ↔ d.printedMarker = ""
  rest : c.rest = [braces]
  attributes : Cursor.reach c.attributes = d.printedAttribute.map fun text ↦
    ((bytesOf (d.form.name ++ "! \x7b\n")).length,
      (bytesOf (d.form.name ++ "! \x7b\n")).length + (bytesOf text).length)
  start : braces.start = (bytesOf d.printedFront).length
  stop : g.stop = (bytesOf (d.printedFront ++ d.printedMembers)).length + 1

variable (tokens : String → Tree)

/-- A field in the syntax tree of what is printed. -/
def fieldNode (f : Field) : FieldNode := ⟨f.name, f.type.node tokens, f.isPublic⟩

/-- A variant in the syntax tree of what is printed: its attribute is `doc(hidden)` if it has one,
and in parentheses it carries its types. -/
structure IsVariant (v : VariantDeclaration) (x : Attributed Variant) : Prop where
  name : x.item.name = v.name
  payload : x.item.payload =
    if v.members.isEmpty then .unit else .positional (TypeExpr.nodes tokens v.members)
  plain : v.isHidden = false → x.attributes = []
  hidden : v.isHidden = true → ∃ a t o c, x.attributes = [a] ∧ a.name = "doc" ∧
    a.arguments = some (.group o [t] c) ∧ o.text = "(" ∧ t.text = "hidden"

/-- The struct or the enum in the syntax tree of what is printed. -/
def IsItem (d : Declaration) (as : List Attribute) (body : ItemBody) : Prop :=
  match d.members with
  | .struct fields => body = .struct (.named (fields.map fun f ↦ .item (fieldNode tokens f)))
  | .enum variants nonExhaustive =>
    as.map Attribute.name = (if nonExhaustive then ["non_exhaustive"] else []) ∧
      ∃ xs, body = .enum xs ∧ List.Forall₂ (IsVariant tokens) variants (Entry.pair xs)

section Read

variable [FileParser]

/-- The parser reads the declaration as it is printed, where `tokens` is the tree of what the token
macro is called on: the whole text as the call of the macro, and the item by itself as a struct or
an enum. -/
structure IsRead (d : Declaration) : Prop where
  encloses : ∀ text, IsSpelling text → (tokens text).Encloses text
  call : ∃ i call c braces, FileParser.parse (bytesOf d.print) = .ok [.item i] ∧
    i.body = .macroCall call ∧ call.name = d.form.name ∧ IsCall d call.arguments c braces
  item : ∃ es as i, FileParser.parse (bytesOf d.itemText) = .ok es ∧ itemsOf es = [⟨as, i⟩] ∧
    i.name = some d.ident ∧ IsItem tokens d as i.body

end Read

/-! ## What is copied -/

theorem slice_middle (path : String) (as bs cs : List UInt8) :
    (⟨path, as ++ (bs ++ cs)⟩ : Source).slice as.length (as.length + bs.length) = bs := by
  have htake : (as ++ (bs ++ cs)).take (as.length + bs.length) = as ++ bs := by
    rw [← List.append_assoc, List.take_left' List.length_append]
  rw [Source.slice, htake, List.drop_left]

/-- The attribute of a printed call is copied as it is printed. -/
theorem attributeBytes_printed {d : Declaration} {g braces : Tree} {c : CallBody}
    (h : IsCall d g c braces) (path : String) :
    attributeBytes (.ofString path d.print) (c.kept d.form) "\n" = bytesOf d.attributeLine := by
  have hreach : Cursor.reach (c.kept d.form) = d.printedAttribute.map fun text ↦
      ((bytesOf (d.form.name ++ "! \x7b\n")).length,
        (bytesOf (d.form.name ++ "! \x7b\n")).length + (bytesOf text).length) := by
    rw [← h.attributes]
    have hattributes := h.attributes
    obtain ⟨ident, members, features⟩ := d
    cases members with
    | struct => exact hattributes.symm
    | enum => rfl
  rw [attributeBytes_eq, hreach, attributeLine]
  cases hattribute : d.printedAttribute with
  | none => rfl
  | some text =>
    have hbytes : bytesOf d.print = bytesOf (d.form.name ++ "! \x7b\n") ++ (bytesOf text ++
        bytesOf ("\n" ++ d.headLine ++ d.printedMarker ++ d.printedMembers ++ "\x7d\n")) := by
      rw [print_eq, printedFront, attributeLine, hattribute, ← bytesOf_append, ← bytesOf_append]
      simp only [String.append_assoc, Option.elim_some]
    simp only [Option.map_some, Option.elim_some]
    rw [bytesOf_append text, Source.ofString, hbytes]
    exact congrArg (· ++ bytesOf "\n") (slice_middle path _ _ _)

/-- **A printed call is copied to the item by itself.** -/
theorem copied_eq_itemText {d : Declaration} {g braces : Tree} {c : CallBody}
    (h : IsCall d g c braces) (path : String) :
    c.copied (.ofString path d.print) d.form (g.stop - 1) = bytesOf d.itemText := by
  have hmembers : (Source.ofString path d.print).slice braces.start (g.stop - 1) =
      bytesOf d.printedMembers := by
    have hbytes : bytesOf d.print =
        bytesOf d.printedFront ++ (bytesOf d.printedMembers ++ bytesOf "\x7d\n") := by
      rw [print_eq, bytesOf_append, bytesOf_append, List.append_assoc]
    rw [h.start, h.stop, Nat.add_sub_cancel, bytesOf_append, List.length_append, Source.ofString,
      hbytes]
    exact slice_middle path _ _ _
  have hitem : bytesOf d.itemText =
      bytesOf d.attributeLine ++ bytesOf d.headLine ++ bytesOf d.printedMembers := by
    rw [itemText, bytesOf_append, bytesOf_append]
  rw [CallBody.copied, CallBody.headBytes, attributeBytes_printed h, h.rest, h.name, hitem,
    restBytes, hmembers]
  rfl

/-! ## What is declared -/

variable {tokens : String → Tree}

theorem nodes_eq_map (ts : List TypeExpr) : TypeExpr.nodes tokens ts = ts.map (·.node tokens) := by
  induction ts with
  | nil => rfl
  | cons t ts ih => rw [TypeExpr.nodes, ih, List.map_cons]

/-- The fields of a struct are read back from their nodes. -/
theorem fields_fieldNode (htokens : ∀ text, IsSpelling text → (tokens text).Encloses text)
    {fields : List Field} (h : ArePlain fields) :
    (Entry.items (fields.map fun f ↦ Entry.item (fieldNode tokens f))).map FieldNode.field =
      fields := by
  induction fields with
  | nil => rfl
  | cons f fields ih =>
    obtain ⟨hf, hfields⟩ := List.forall_mem_cons.mp h
    have hfield : (fieldNode tokens f).field = f := by
      rw [fieldNode, FieldNode.field, hf.2.expr_node htokens]
    exact congrArg₂ List.cons hfield (ih hfields)

/-- A variant is read back from its node. -/
theorem ofVariant_of_isVariant (htokens : ∀ text, IsSpelling text → (tokens text).Encloses text)
    (ident : String) {v : VariantDeclaration} (hv : ∀ t ∈ v.members, t.IsPlain)
    {x : Attributed Variant} (h : IsVariant tokens v x) : ofVariant ident x = .ok v := by
  have hhidden : Attribute.isHidden x.attributes = v.isHidden := by
    cases hv : v.isHidden with
    | false => rw [h.plain hv]; rfl
    | true =>
      obtain ⟨a, t, o, c, hx, hname, harguments, ho, ht⟩ := h.hidden hv
      rw [hx, Attribute.isHidden, List.any_cons, Attribute.hides, hname, harguments]
      simp [ho, ht]
  obtain ⟨name, members, isHidden⟩ := v
  rw [ofVariant, h.payload, h.name, hhidden]
  cases members with
  | nil => rfl
  | cons t ts =>
    have hexprs : (TypeExpr.nodes tokens (t :: ts)).map TypeNode.expr = t :: ts := by
      rw [nodes_eq_map, List.map_map]
      exact (List.map_congr_left fun u hu ↦ (hv u hu).expr_node htokens).trans (List.map_id _)
    simp only [List.isEmpty_cons, Bool.false_eq_true, if_false, hexprs]

/-- The variants of an enum are read back from their nodes. -/
theorem forall₂_ofVariant (htokens : ∀ text, IsSpelling text → (tokens text).Encloses text)
    (ident : String) {variants : List VariantDeclaration} (hvariants : ArePlainVariants variants)
    {xs : List (Attributed Variant)} (h : List.Forall₂ (IsVariant tokens) variants xs) :
    List.Forall₂ (fun x v ↦ ofVariant ident x = .ok v) xs variants := by
  induction h with
  | nil => exact .nil
  | cons hx _ ih =>
    obtain ⟨hv, hvariants⟩ := List.forall_mem_cons.mp hvariants
    exact .cons (ofVariant_of_isVariant htokens ident hv.2 hx) (ih hvariants)

/-- An enum is read back from its attributes and the nodes of its variants. -/
theorem ofEnum_of_isVariant (htokens : ∀ text, IsSpelling text → (tokens text).Encloses text)
    (ident : String) {variants : List VariantDeclaration} (hvariants : ArePlainVariants variants)
    {as : List Attribute} {nonExhaustive : Bool}
    (has : as.map Attribute.name = if nonExhaustive then ["non_exhaustive"] else [])
    {xs : List (Entry Variant)}
    (h : List.Forall₂ (IsVariant tokens) variants (Entry.pair xs)) :
    ofEnum ident as xs = .ok ⟨ident, .enum variants nonExhaustive, .always⟩ := by
  have hmark : Attribute.has "non_exhaustive" as = nonExhaustive := by
    have hany : Attribute.has "non_exhaustive" as =
        (as.map Attribute.name).any fun name ↦ name = "non_exhaustive" := by
      rw [Attribute.has, List.any_map]
      rfl
    rw [hany, has]
    cases nonExhaustive <;> decide
  rw [ofEnum_eq_ok_iff, hmark]
  exact ⟨variants, forall₂_ofVariant htokens ident hvariants h, rfl⟩

/-- The marker of a printed struct tells whether the struct is `full`. -/
theorem spelledFeatures_of_isCall {ident : String} {fields : List Field} {features : Features}
    {g braces : Tree} {c : CallBody} (h : IsCall ⟨ident, .struct fields, features⟩ g c braces) :
    (if !c.marker.isEmpty then Features.ofList [fullMarker] else .always) =
      spelledFeatures ⟨ident, .struct fields, features⟩ := by
  have hmarker := h.marker
  rw [printedMarker] at hmarker
  rw [spelledFeatures]
  dsimp only at hmarker ⊢
  by_cases hfull : features = .ofList [fullMarker]
  · rw [if_pos hfull] at hmarker ⊢
    have hne : c.marker ≠ [] := fun hnil ↦ absurd (hmarker.mp hnil) (by decide)
    rw [List.isEmpty_eq_false_iff.mpr hne]
    rfl
  · rw [if_neg hfull] at hmarker ⊢
    rw [hmarker.mpr rfl]
    rfl

section Read

variable [FileParser] {d : Declaration}

/-- The text of a struct by itself declares it. -/
theorem declaresStruct_itemText {ident : String} {fields : List Field} {features : Features}
    (hread : IsRead tokens ⟨ident, .struct fields, features⟩) (hfields : ArePlain fields)
    (isFull : Bool) : DeclaresStruct (bytesOf (itemText ⟨ident, .struct fields, features⟩)) isFull
      ⟨ident, .struct fields, if isFull then .ofList [fullMarker] else .always⟩ := by
  obtain ⟨es, as, i, hparse, hitems, hident, hbody⟩ := hread.item
  have hname : i.name.getD "" = ident := congrArg (·.getD "") hident
  have hbody : i.body = .struct (.named (fields.map fun f ↦ .item (fieldNode tokens f))) := hbody
  refine ⟨⟨as, i⟩, _, ⟨ident, .struct fields, .always⟩,
    ⟨es, hparse, hitems, by rw [Item.kind, hbody]; rfl⟩, hbody, ?_, rfl⟩
  rw [hname, ofStruct, fields_fieldNode hread.encloses hfields]

/-- The text of an enum by itself declares it. -/
theorem declaresEnum_itemText {ident : String} {variants : List VariantDeclaration}
    {nonExhaustive : Bool} {features : Features}
    (hread : IsRead tokens ⟨ident, .enum variants nonExhaustive, features⟩)
    (hvariants : ArePlainVariants variants) :
    DeclaresEnum (bytesOf (itemText ⟨ident, .enum variants nonExhaustive, features⟩))
      ⟨ident, .enum variants nonExhaustive, .always⟩ := by
  obtain ⟨es, as, i, hparse, hitems, hident, has, xs, hbody, hxs⟩ := hread.item
  have hname : i.name.getD "" = ident := congrArg (·.getD "") hident
  refine ⟨⟨as, i⟩, xs, ⟨es, hparse, hitems, by rw [Item.kind, hbody]; rfl⟩, hbody, ?_⟩
  rw [hname]
  exact ofEnum_of_isVariant hread.encloses ident hvariants has hxs

/-- The call is recognised as the declaration, with the features that its marker tells. -/
theorem recognize_of_isCall (hread : IsRead tokens d) (h : d.IsPrintable) (path : String)
    {call : MacroCall} {c : CallBody} {braces : Tree} (hname : call.name = d.form.name)
    (hcall : IsCall d call.arguments c braces) : recognize (.ofString path d.print) call =
      .ok (some { d with features := d.spelledFeatures }) := by
  have hcopied := copied_eq_itemText hcall path
  obtain ⟨ident, members, features⟩ := d
  rw [recognize, hname, ofName?_name]
  cases members with
  | struct fields =>
    have hdeclares := declaresStruct_itemText hread h.2 (!c.marker.isEmpty)
    rw [← hcopied, spelledFeatures_of_isCall hcall] at hdeclares
    exact map_eq_ok.mpr ⟨_, (recognizeStruct_of_trees hcall.proper hcall.body).mpr hdeclares, rfl⟩
  | enum variants nonExhaustive =>
    have hdeclares := declaresEnum_itemText hread h.2
    rw [← hcopied] at hdeclares
    exact (recognizeEnum_of_trees hcall.proper hcall.body).mpr
      (.inr ⟨hcall.marker.mpr rfl, _, rfl, hdeclares⟩)

end Read

/-- A struct with a marker, a public field of a nested type, and a private one. -/
def sampleStruct : Declaration :=
  ⟨"Pair", .struct [⟨"first", .path ["Vec"] [.path ["u8"] []], true⟩,
    ⟨"rest", .macroCall "Token" "=>", false⟩], .ofList ["full"]⟩

theorem isPrintable_sampleStruct : sampleStruct.IsPrintable := by
  have hu8 : (TypeExpr.path ["u8"] []).IsPlain := .path (.primitive (by decide)) nofun
  have hvec : IsSegment "Vec" := isSegment_of_all (by decide)
  have hfirst : (TypeExpr.path ([] ++ ["Vec"]) [.path ["u8"] []]).IsPlain :=
    .path (.names nofun (List.forall_mem_singleton.mpr hvec) (List.cons_ne_nil _ _))
      (List.forall_mem_singleton.mpr hu8)
  have hchars : ∀ c ∈ "=>".toList, c ∈ '$' :: operatorChars :=
    List.all_iff_forall_prop.mp (by decide)
  have hrest : (TypeExpr.macroCall "Token" "=>").IsPlain := .token (.inr ⟨hchars, by decide⟩)
  refine ⟨(isSegment_of_all (by decide)).toIsIdentifier, List.forall_mem_cons.mpr ⟨⟨?_, hfirst⟩,
    List.forall_mem_singleton.mpr ⟨?_, hrest⟩⟩⟩
  · exact (isSegment_of_all (by decide)).toIsIdentifier
  · exact (isSegment_of_all (by decide)).toIsIdentifier

/-- The braces around the fields of the sample. -/
def sampleBraces : Tree :=
  .group ⟨.mark, "\x7b", [⟨.blank, [' ']⟩], 36, 37⟩
    [.leaf ⟨.word, "pub", [⟨.blank, ['\n']⟩], 38, 41⟩,
      .leaf ⟨.word, "first", [⟨.blank, [' ']⟩], 42, 47⟩, .leaf ⟨.mark, ":", [], 47, 48⟩,
      .leaf ⟨.word, "Vec", [⟨.blank, [' ']⟩], 49, 52⟩, .leaf ⟨.mark, "<", [], 52, 53⟩,
      .leaf ⟨.word, "u8", [], 53, 55⟩, .leaf ⟨.mark, ">", [], 55, 56⟩,
      .leaf ⟨.mark, ",", [], 56, 57⟩, .leaf ⟨.word, "rest", [⟨.blank, ['\n']⟩], 58, 62⟩,
      .leaf ⟨.mark, ":", [], 62, 63⟩, .leaf ⟨.word, "Token", [⟨.blank, [' ']⟩], 64, 69⟩,
      .leaf ⟨.mark, "!", [], 69, 70⟩,
      .group ⟨.mark, "[", [], 70, 71⟩ [.leaf ⟨.mark, "=>", [], 71, 73⟩] ⟨.mark, "]", [], 73, 74⟩,
      .leaf ⟨.mark, ",", [], 74, 75⟩]
    ⟨.mark, "\x7d", [⟨.blank, ['\n']⟩], 76, 77⟩

/-- The inside of the call that the sample is printed as. -/
def sampleBody : CallBody where
  attributes := []
  pub := .leaf ⟨.word, "pub", [⟨.blank, ['\n']⟩], 14, 17⟩
  keyword := .leaf ⟨.word, "struct", [⟨.blank, [' ']⟩], 18, 24⟩
  name := ⟨.word, "Pair", [⟨.blank, [' ']⟩], 25, 29⟩
  marker := [.leaf ⟨.mark, "#", [⟨.blank, [' ']⟩], 30, 31⟩, .leaf ⟨.word, "full", [], 31, 35⟩]
  rest := [sampleBraces]

/-- The call that the sample is printed as. -/
def sampleCall : MacroCall where
  name := "ast_struct"
  arguments := .group ⟨.mark, "\x7b", [⟨.blank, [' ']⟩], 12, 13⟩ sampleBody.trees
    ⟨.mark, "\x7d", [⟨.blank, ['\n']⟩], 78, 79⟩
  text :=
    "ast_struct! \x7b\npub struct Pair #full \x7b\n" ++
      "pub first: Vec<u8>,\nrest: Token![=>],\n\x7d\n\x7d"
  start := 0

/-- The struct that the sample is copied to. -/
def sampleItem : Item where
  body := .struct (.named [.item ⟨"first", .path "Vec" [.path "u8" []], true⟩,
    .item ⟨"rest", .macroCall "Token" (callTokens "=>"), false⟩])
  name := some "Pair"
  isPublic := true
  text := "pub struct Pair \x7b\npub first: Vec<u8>,\nrest: Token![=>],\n\x7d"
  start := 0

theorem isCall_sampleStruct : IsCall sampleStruct sampleCall.arguments sampleBody sampleBraces where
  body := rfl
  proper := ⟨.nil, rfl, rfl, by decide, .inr ⟨"full", rfl, _, _, rfl, rfl, by decide, rfl⟩⟩
  name := rfl
  marker := by decide
  rest := rfl
  attributes := rfl
  start := by decide
  stop := by decide

/-- The parser of the program reads the sample as it is printed. -/
theorem isRead_sampleStruct : IsRead callTokens sampleStruct where
  encloses text _ := callTokens_encloses text
  call := by
    have hparse : FileParser.parse (bytesOf sampleStruct.print) =
        .ok [.item ⟨.macroCall sampleCall, none, false, sampleCall.text, 0⟩] := by
      decide +kernel
    exact ⟨_, _, _, _, hparse, rfl, rfl, isCall_sampleStruct⟩
  item := by
    have hparse : FileParser.parse (bytesOf sampleStruct.itemText) = .ok [.item sampleItem] := by
      decide +kernel
    exact ⟨_, [], sampleItem, hparse, rfl, rfl, rfl⟩

/-- A struct with features that its call does not tell. -/
def derivedStruct : Declaration := ⟨"Unit", .struct [], .ofList ["derive"]⟩

/-- The call that the struct is printed as. -/
def derivedCall : MacroCall where
  name := "ast_struct"
  arguments := .group ⟨.mark, "\x7b", [⟨.blank, [' ']⟩], 12, 13⟩
    [.leaf ⟨.word, "pub", [⟨.blank, ['\n']⟩], 14, 17⟩,
      .leaf ⟨.word, "struct", [⟨.blank, [' ']⟩], 18, 24⟩,
      .leaf ⟨.word, "Unit", [⟨.blank, [' ']⟩], 25, 29⟩,
      .group ⟨.mark, "\x7b", [⟨.blank, [' ']⟩], 30, 31⟩ []
        ⟨.mark, "\x7d", [⟨.blank, ['\n']⟩], 32, 33⟩]
    ⟨.mark, "\x7d", [⟨.blank, ['\n']⟩], 34, 35⟩
  text := "ast_struct! \x7b\npub struct Unit \x7b\n\x7d\n\x7d"
  start := 0

end Declaration
end NodeSchema
