import NodeSchema.Proofs.Rust.Grammar.PlainType
import NodeSchema.Proofs.Rust.Grammar.Value
import NodeSchema.Rust.Grammar.File

/-!
# Types by themselves

Messages show a type as `TypeExpr.describe` writes it.  With a parser that gives plain types their
trees, a plain type is read back from what they show (`parseType_describe`).

The parser of the program is one (`Grammar.readsTypes`).  A type by itself is the type of an alias
(`typeText`), and whatever token trees the type is written as, the alias is the one entry of its
text if the grammar reads the type from them (`Grammar.parse_of_type`).
-/

set_option autoImplicit false

namespace NodeSchema
namespace Rust

open Text Lexeme Rust.Tree

/-! ## The alias -/

/-- The declaration of an alias, with the given trees for its type and what is behind it. -/
def aliasOf (us : List Tree) : List Tree :=
  .leaf (.ofWord [] "type") :: .leaf (.ofWord space "__Parsed") :: .leaf (.ofMark space '=') :: us

/-- The end of the alias. -/
def aliasEnd : List Tree := [.leaf (.ofMark [] ';')]

namespace Grammar

variable {code : Code} {us : List Tree} {t : TypeNode}

theorem readTypeAlias_aliasOf (h : type code us = some (t, aliasEnd)) :
    readTypeAlias code (aliasOf us) = some ((some "__Parsed", .typeAlias t), []) := by
  have hword : word "type" (aliasOf us) = some (aliasOf us).tail := rfl
  have hname : anyWord (aliasOf us).tail =
      some (.ofWord space "__Parsed", .leaf (.ofMark space '=') :: us) := rfl
  have hparameters : optionalParameters code (.leaf (.ofMark space '=') :: us) =
      some (.leaf (.ofMark space '=') :: us) := rfl
  have hwhere : whereClause code (.leaf (.ofMark space '=') :: us) =
      .leaf (.ofMark space '=') :: us := rfl
  have hequals : sign "=" (.leaf (.ofMark space '=') :: us) = some us := rfl
  have hend : whereClause code aliasEnd = aliasEnd := rfl
  have hsemicolon : sign ";" aliasEnd = some [] := rfl
  simp only [readTypeAlias, hword, hname, hparameters, hwhere, hequals, h, hend, hsemicolon,
    Option.bind_eq_bind, Option.bind_some]
  rfl

/-- **The alias is the one item of its trees.** -/
theorem entries_aliasOf (h : type code us = some (t, aliasEnd)) : entries code (aliasOf us) =
    some [.item ⟨.typeAlias t, some "__Parsed", false, textOf (aliasOf us), 0⟩] := by
  have hread := readTypeAlias_aliasOf h
  have hword (text : String) (h : text ≠ "type") : word text (aliasOf us) = none :=
    word_eq_none_of_text_ne h.symm _
  have hvisibility : visibility? (aliasOf us) = none := rfl
  have hfirst : (visibleReaders code ++ bareReaders code).findSome? (fun p ↦ p (aliasOf us)) =
      some ((some "__Parsed", .typeAlias t), []) := by
    simp only [visibleReaders, List.cons_append, List.findSome?, readModule, readStruct, readUnion,
      readEnum, hword "mod" (by decide), hword "struct" (by decide), hword "union" (by decide),
      hword "enum" (by decide), Option.bind_eq_bind, Option.bind_none, hread]
  have hconsumed : consumed (aliasOf us) [] = aliasOf us := by
    simpa using consumed_append (aliasOf us) []
  have hitem : namedItem code (aliasOf us) =
      some (⟨.typeAlias t, some "__Parsed", false, textOf (aliasOf us), 0⟩, []) := by
    rw [namedItem, hvisibility]
    dsimp only
    rw [hfirst, Option.map_some, hconsumed]
    rfl
  have hinner : innerAttribute code (aliasOf us) = none := rfl
  have houter : outerAttribute code (aliasOf us) = none := rfl
  have hline : interpreterLine (aliasOf us) = none := rfl
  have hentry : entry code (aliasOf us) =
      some ([.item ⟨.typeAlias t, some "__Parsed", false, textOf (aliasOf us), 0⟩], []) := by
    rw [entry, hinner, houter, either, hline, Option.none_or, either, hitem]
    rfl
  have hlength : (aliasOf us).length = us.length + 2 + 1 := rfl
  rw [entries, hlength, entriesFuel, hentry, Option.bind_eq_bind, Option.bind_some]
  · rfl
  · exact List.cons_ne_nil _ _

end Grammar

/-- What is an alias apart from places is one. -/
theorem exists_item_of_unplaced {e : Entry Item} {i : Item} {t : TypeNode}
    (h : e.unplacedItem = (Entry.item i).unplacedItem) (hi : i.body = .typeAlias t) :
    ∃ item, e = .item item ∧ item.body = .typeAlias t := by
  cases e with
  | item x =>
    have hbody : x.body.unplaced = i.body.unplaced := congrArg Item.body (Entry.item.inj h)
    refine ⟨x, rfl, ?_⟩
    rw [hi] at hbody
    generalize x.body = b at hbody
    cases b with
    | typeAlias t' => exact hbody
    | _ => cases hbody
  | _ => cases h

/-- **A type by itself is read as the grammar reads its trees**, wherever they stand. -/
theorem Grammar.parse_of_type {bytes : List UInt8} {ts us : List Tree} {t : TypeNode}
    (hts : trees? bytes = some ts) (hunplaced : ts.map unplaced = (aliasOf us).map unplaced)
    (h : ∀ code, Grammar.type code us = some (t, aliasEnd)) :
    ∃ i : Item, Grammar.fileParser.parse bytes = .ok [.item i] ∧ i.body = .typeAlias t := by
  have hentries : (entriesOf ts).map (List.map Entry.unplacedItem) =
      (entriesOf (aliasOf us)).map (List.map Entry.unplacedItem) := by
    rw [← entriesOf_unplaced, hunplaced, entriesOf_unplaced]
  rw [entriesOf, entriesOf, Grammar.entries_aliasOf (h _), ← entriesOf] at hentries
  obtain ⟨es, hes, hmap⟩ := Option.map_eq_some_iff.mp hentries
  obtain ⟨e, rfl, he⟩ := List.map_eq_singleton_iff.mp hmap
  obtain ⟨i, rfl, hi⟩ := exists_item_of_unplaced he rfl
  refine ⟨i, Grammar.parse_eq_ok.mpr ?_, hi⟩
  rw [hts]
  exact hes

/-! ## The text of the alias -/

/-- The characters in front of the type. -/
def aliasHead : List Char := "type __Parsed = ".toList

theorem toList_typeText (text : String) :
    (typeText text).toList = aliasHead ++ (text.toList ++ ";".toList) := by
  unfold typeText aliasHead
  simp only [String.toList_append, List.append_assoc]

theorem chars_typeText (text : String) :
    chars (bytesOf (typeText text)) = aliasHead ++ (text.toList ++ ";".toList) := by
  rw [chars_bytesOf, toList_typeText]

/-- The alias is spelled as its text, up to its last character. -/
theorem spelled_aliasOf {us : List Tree} {cs : List Char}
    (h : Spelled us (flatten space ++ cs)) : Spelled (aliasOf us) (aliasHead ++ cs) := by
  have hequals := h.mark (c := '=') isBlankGap_space (by decide)
  have hname : IsWord "__Parsed" := isWord_of_all (by decide)
  have htype : IsWord "type" := isWord_of_all (by decide)
  exact (hequals.word isBlankGap_space hname fun d hd ↦ Option.some.inj hd ▸ by decide).word
    isBlankGap_nil htype fun d hd ↦ Option.some.inj hd ▸ by decide

/-- **The parser of the program gives plain types their trees.** -/
theorem Grammar.readsTypes : Grammar.fileParser.ReadsTypes callTokens where
  encloses text _ := callTokens_encloses text
  reads t h := by
    have hends : EndsToken ';' := by decide
    have hspelled : Spelled (aliasOf (t.trees space)) (aliasHead ++ t.describe.toList) :=
      spelled_aliasOf (t.spelled_trees h isBlankGap_space)
    obtain ⟨ts, hts, hunplaced⟩ := hspelled.exists_trees_of_mark (by decide) hends
      (chars_typeText t.describe) rfl rfl
    have hread (code : Grammar.Code) :
        Grammar.type code (t.trees space ++ aliasEnd) = some (t.node callTokens, aliasEnd) :=
      h.type_trees space (.mark rfl (by decide))
    exact Grammar.parse_of_type hts hunplaced hread

/-! ## Round trip -/

/-- A type with brackets that run together and with the marks of types in token macros. -/
def nestedType : TypeExpr :=
  .path ["syn", "Punctuated"] [.path ["Option"] [.path ["Vec"] [.tuple [.macroCall "Token" ">>=",
    .tuple []]]], .macroCall "Token" ","]

theorem isPlain_nestedType : nestedType.IsPlain := by
  have hpath {segments : List String} {ts : List TypeExpr} (hsegments : ∀ s ∈ segments, IsSegment s)
      (hne : segments ≠ []) (hts : ∀ t ∈ ts, t.IsPlain) :
      (TypeExpr.path ([] ++ segments) ts).IsPlain :=
    .path (.names nofun hsegments hne) hts
  have htoken {text : String} (hchars : text.toList.all (· ∈ '$' :: operatorChars))
      (hcomment : IsUncommented text.toList) : (TypeExpr.macroCall "Token" text).IsPlain :=
    .token (.inr ⟨by simpa using hchars, hcomment⟩)
  have hone {s : String} {t : TypeExpr} (hs : IsSegment s) (ht : t.IsPlain) :
      (TypeExpr.path ([] ++ [s]) [t]).IsPlain :=
    hpath (List.forall_mem_singleton.mpr hs) (List.cons_ne_nil _ _)
      (List.forall_mem_singleton.mpr ht)
  have hshift : (TypeExpr.macroCall "Token" ">>=").IsPlain :=
    htoken (by decide) (by decide)
  have hpair : (TypeExpr.tuple [.macroCall "Token" ">>=", .tuple []]).IsPlain :=
    .tuple (by decide) (List.forall_mem_cons.mpr ⟨hshift,
      List.forall_mem_singleton.mpr (.tuple (by decide) nofun)⟩)
  have hvec : IsSegment "Vec" := isSegment_of_all (by decide)
  have hoption : IsSegment "Option" := isSegment_of_all (by decide)
  have hsyn : IsSegment "syn" := isSegment_of_all (by decide)
  have hpunctuated : IsSegment "Punctuated" := isSegment_of_all (by decide)
  refine hpath (List.forall_mem_cons.mpr ⟨hsyn, List.forall_mem_singleton.mpr hpunctuated⟩)
    (List.cons_ne_nil _ _) (List.forall_mem_cons.mpr ⟨hone hoption (hone hvec hpair), ?_⟩)
  exact List.forall_mem_singleton.mpr (htoken (by decide) (by decide))

end Rust
end NodeSchema
