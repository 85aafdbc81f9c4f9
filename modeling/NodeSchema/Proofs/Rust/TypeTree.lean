import Mathlib.Data.Bool.AllAny
import NodeSchema.Proofs.Layout.Basic
import NodeSchema.Proofs.Result
import NodeSchema.Proofs.Text.PathName
import NodeSchema.Rust.Single

/-!
# Plain types

A plain type is a path that ends in a name or is a primitive type, with plain types as its
arguments; a tuple of plain types that is not of one element only; or the call of the token macro on
a word or on operator characters (`TypeExpr.IsPlain`).

`TypeExpr.node` is the tree that a plain type has in the syntax tree of a text, and the type is what
the tree is read as (`TypeExpr.IsPlain.expr_node`).  That a parser gives this tree for the text that
messages show of a type is what `FileParser.ReadsTypes` says.
-/

set_option autoImplicit false

namespace NodeSchema
namespace Rust

open Text

/-! ## Names -/

/-- The text is an identifier or a keyword, not in its raw form. -/
def IsWord (text : String) : Prop :=
  ∃ c u, text.toList = c :: u ∧ isIdentStart c = true ∧ ∀ d ∈ u, isIdentContinue d = true

namespace IsWord

variable {text : String} (h : IsWord text)
include h

theorem continues : ∀ c ∈ text.toList, isIdentContinue c = true := by
  obtain ⟨d, u, htext, hd, hu⟩ := h
  rw [htext]
  exact List.forall_mem_cons.mpr ⟨isIdentContinue_of_isIdentStart hd, hu⟩

theorem notMem {c : Char} (hc : isIdentContinue c = false) : c ∉ text.toList := by
  intro hmem
  rw [h.continues c hmem] at hc
  cases hc

theorem isEmpty : text.toList.isEmpty = false := by
  obtain ⟨d, u, htext, -⟩ := h
  rw [htext]
  rfl

end IsWord

theorem isWord_of_all {text : String} (h : (text.toList.head?.any isIdentStart &&
    text.toList.tail.all isIdentContinue) = true) : IsWord text := by
  rw [Bool.and_eq_true] at h
  cases htext : text.toList with
  | nil =>
    rw [htext] at h
    cases h.1
  | cons c u =>
    rw [htext] at h
    exact ⟨c, u, htext, h.1, List.all_eq_true.mp h.2⟩

theorem isWord_of_mem (words : List String) (h : words.all (fun s ↦
    s.toList.head?.any isIdentStart && s.toList.tail.all isIdentContinue) = true) {s : String}
    (hs : s ∈ words) : IsWord s :=
  isWord_of_all (List.all_eq_true.mp h s hs)

/-- The text is an identifier, also between the delimiters of a macro. -/
structure IsIdentifier (text : String) : Prop where
  word : IsWord text
  notReserved : text ∉ reservedWords
  notPrimitive : text ∉ primitiveTypes

/-- The text is a name in a path.  Two of the words that macros take for identifiers begin types of
other kinds. -/
structure IsSegment (text : String) : Prop extends IsIdentifier text where
  beginsPath : text ∉ ["dyn", "extern"]

theorem isSegment_of_all {text : String} (h : (text.toList.head?.any isIdentStart &&
    text.toList.tail.all isIdentContinue && !(reservedWords ++ primitiveTypes ++
      ["dyn", "extern"]).contains text) = true) : IsSegment text := by
  rw [Bool.and_eq_true, Bool.not_eq_true', List.contains_eq_mem, decide_eq_false_iff_not,
    List.mem_append, List.mem_append, not_or, not_or] at h
  exact ⟨⟨isWord_of_all h.1, h.2.1.1, h.2.1.2⟩, h.2.2⟩

/-! ## Paths -/

/-- The words that only begin a path. -/
def pathOpenings : List String := ["self", "super", "crate"]

/-- The segments are those of a path that may have the given arguments. -/
inductive IsPath : List String → List TypeExpr → Prop
  /-- Names, behind words that only begin a path. -/
  | names {openings names : List String} {arguments : List TypeExpr}
      (hopenings : ∀ s ∈ openings, s ∈ pathOpenings) (hnames : ∀ s ∈ names, IsSegment s)
      (hne : names ≠ []) : IsPath (openings ++ names) arguments
  | primitive {s : String} (hs : s ∈ primitiveTypes) : IsPath [s] []

namespace IsPath

variable {segments : List String} {arguments : List TypeExpr} (h : IsPath segments arguments)
include h

theorem isWord : ∀ s ∈ segments, IsWord s := by
  cases h with
  | names hopenings hnames _ =>
    refine List.forall_mem_append.mpr ⟨fun s hs ↦ ?_, fun s hs ↦ (hnames s hs).word⟩
    exact isWord_of_mem pathOpenings (by decide) (hopenings s hs)
  | primitive hs =>
    exact List.forall_mem_singleton.mpr (isWord_of_mem primitiveTypes (by decide) hs)

theorem ne_nil : segments ≠ [] := by
  cases h with
  | names _ _ hne => exact List.append_ne_nil_of_right_ne_nil _ hne
  | primitive => exact List.cons_ne_nil _ _

end IsPath

/-- The characters of texts with a separator between them. -/
theorem toList_intercalate (separator a : String) (as : List String) :
    (separator.intercalate (a :: as)).toList =
      a.toList ++ as.flatMap fun b ↦ separator.toList ++ b.toList := by
  induction as generalizing a with
  | nil => rw [String.intercalate_singleton]; exact (List.append_nil _).symm
  | cons b bs ih =>
    rw [String.intercalate_cons_cons, String.toList_append, String.toList_append, ih,
      List.flatMap_cons]
    simp only [List.append_assoc]

theorem isBlank_of_mem_intercalate {segments : List String} (h : ∀ s ∈ segments, IsWord s) :
    ∀ c ∈ ("::".intercalate segments).toList, isBlank c = false := by
  have hword {s : String} (hs : s ∈ segments) (c : Char) (hc : c ∈ s.toList) :
      isBlank c = false := by
    refine Bool.eq_false_iff.mpr fun hblank ↦ ?_
    exact (h s hs).notMem (isIdentContinue_of_isBlank hblank) hc
  cases segments with
  | nil => exact nofun
  | cons s segments =>
    rw [toList_intercalate]
    refine List.forall_mem_append.mpr ⟨hword List.mem_cons_self, fun c hc ↦ ?_⟩
    obtain ⟨s', hs', hc⟩ := List.mem_flatMap.mp hc
    rcases List.mem_append.mp hc with hc | hc
    · have hall : ∀ c ∈ "::".toList, isBlank c = false := List.all_iff_forall_prop.mp (by decide)
      exact hall c hc
    · exact hword (List.mem_cons_of_mem _ hs') c hc

/-- The segments of a path are found again in its text. -/
theorem segmentsOf_intercalate {segments : List String} (h : ∀ s ∈ segments, IsWord s)
    (hne : segments ≠ []) : segmentsOf ("::".intercalate segments) = segments := by
  have hblank : removeBlanks ("::".intercalate segments).toList =
      ("::".intercalate segments).toList :=
    List.filter_eq_self.mpr fun c hc ↦ by rw [isBlank_of_mem_intercalate h c hc]; rfl
  have hcolon : ∀ s ∈ segments, ':' ∉ s.toList := fun s hs ↦ (h s hs).notMem (by decide)
  have hsplit : splitColons ("::".intercalate segments).toList = segments.map String.toList := by
    cases segments with
    | nil => exact absurd rfl hne
    | cons s segments =>
      obtain ⟨hs, hsegments⟩ := List.forall_mem_cons.mp hcolon
      rw [toList_intercalate, List.map_cons,
        ← splitColons_flatMap hs (List.forall_mem_map.mpr hsegments), List.flatMap_map]
      rfl
  rw [segmentsOf, hblank, hsplit, List.filter_eq_self.mpr, List.map_map]
  · exact (List.map_congr_left fun s _ ↦ String.ofList_toList).trans (List.map_id _)
  · refine List.forall_mem_map.mpr fun s hs ↦ ?_
    rw [(h s hs).isEmpty]
    rfl

/-! ## Types -/

/-- The text is a word, or made of operator characters without the beginning of a comment. -/
def IsSpelling (text : String) : Prop :=
  IsWord text ∨ (∀ c ∈ text.toList, c ∈ '$' :: operatorChars) ∧ IsUncommented text.toList

namespace TypeExpr

/-- The type is one that a schema tells apart, and it is written in one way. -/
inductive IsPlain : TypeExpr → Prop
  | path {segments : List String} {arguments : List TypeExpr} (hpath : IsPath segments arguments)
      (harguments : ∀ t ∈ arguments, IsPlain t) : IsPlain (.path segments arguments)
  | tuple {elements : List TypeExpr} (hlength : elements.length ≠ 1)
      (helements : ∀ t ∈ elements, IsPlain t) : IsPlain (.tuple elements)
  | token {text : String} (htext : IsSpelling text) : IsPlain (.macroCall "Token" text)

end TypeExpr

/-- The group encloses tokens that make up the text, none of which is a string in its raw form. -/
def Tree.Encloses (g : Tree) (text : String) : Prop :=
  ∃ ts : List Token, g.body = ts.map Tree.leaf ∧ (∀ t ∈ ts, t.kind ≠ .rawString) ∧
    ts.flatMap (fun t ↦ t.text.toList) = text.toList

/-- What tokens make up is their text with nothing between them. -/
theorem Tree.Encloses.renderBody_eq {g : Tree} {text : String} (h : g.Encloses text) :
    g.renderBody = text := by
  obtain ⟨ts, hbody, hkind, htext⟩ := h
  have hall : renderedAll (ts.map Tree.leaf) = ts.flatMap fun t ↦ t.text.toList := by
    clear hbody htext
    induction ts with
    | nil => rfl
    | cons t ts ih =>
      obtain ⟨ht, hts⟩ := List.forall_mem_cons.mp hkind
      rw [List.map_cons, renderedAll, rendered, renderToken, if_neg ht, ih hts, List.flatMap_cons]
  rw [renderBody, hbody, hall, htext, String.ofList_toList]

namespace TypeExpr

section Node

variable (tokens : String → Tree)

mutual
/-- The tree of a type, where `tokens` tells what the token macro is called on. -/
def node : TypeExpr → TypeNode
  | .path segments arguments => .path ("::".intercalate segments) (nodes arguments)
  | .tuple elements => .tuple (nodes elements)
  | .macroCall name text => .macroCall name (tokens text)
  | .argument text => .argument text
  | .other text => .other text
/-- The trees of types. -/
def nodes : List TypeExpr → List TypeNode
  | [] => []
  | t :: ts => node t :: nodes ts
end

end Node

variable {tokens : String → Tree}

theorem IsPlain.exprs_node {t : TypeExpr} (h : t.IsPlain) (ns : List TypeNode) :
    TypeNode.exprs (t.node tokens :: ns) = (t.node tokens).expr :: TypeNode.exprs ns ∧
      TypeNode.argumentExprs (t.node tokens :: ns) =
        (t.node tokens).expr :: TypeNode.argumentExprs ns := by
  cases h <;> exact ⟨rfl, rfl⟩

/-- Plain types are what their trees are read as if each of them is. -/
theorem exprs_nodes {ts : List TypeExpr} (hplain : ∀ t ∈ ts, t.IsPlain)
    (hexpr : ∀ t ∈ ts, (t.node tokens).expr = t) :
    TypeNode.exprs (nodes tokens ts) = ts ∧ TypeNode.argumentExprs (nodes tokens ts) = ts := by
  induction ts with
  | nil => exact ⟨rfl, rfl⟩
  | cons t ts ih =>
    obtain ⟨ht, hplain⟩ := List.forall_mem_cons.mp hplain
    obtain ⟨hread, hexpr⟩ := List.forall_mem_cons.mp hexpr
    obtain ⟨hexprs, harguments⟩ := ih hplain hexpr
    rw [nodes, (ht.exprs_node _).1, (ht.exprs_node _).2, hread, hexprs, harguments]
    exact ⟨rfl, rfl⟩

/-- **A plain type is what its tree is read as.** -/
theorem IsPlain.expr_node (htokens : ∀ text, IsSpelling text → (tokens text).Encloses text)
    {t : TypeExpr} (h : t.IsPlain) : (t.node tokens).expr = t := by
  induction h with
  | path hpath harguments ih =>
    rw [node, TypeNode.expr, segmentsOf_intercalate hpath.isWord hpath.ne_nil,
      (exprs_nodes harguments ih).2]
  | tuple _ helements ih => rw [node, TypeNode.expr, (exprs_nodes helements ih).1]
  | @token text htext =>
    have hname : lastSegment (segmentsOf "Token") = "Token" := by decide
    rw [node, TypeNode.expr, hname, (htokens text htext).renderBody_eq]

end TypeExpr

/-! ## Types by themselves -/

section Parser

variable [FileParser]

/-- A text that holds nothing but an alias is read as the type of the alias. -/
theorem parseType_of_parse {text : String} {i : Item} {n : TypeNode}
    (hparse : FileParser.parse (bytesOf (typeText text)) = .ok [.item i])
    (hbody : i.body = .typeAlias n) : parseType text = .ok n.expr := by
  have hwrap : i.unwrapped = i := by rw [Item.unwrapped, hbody]
  have hitems : (Source.ofString typePath (typeText text)).items = .ok [⟨[], i⟩] := by
    have hone : itemsOf [.item i] = [⟨[], i⟩] := by
      show [(⟨[], i.unwrapped⟩ : Attributed Item)] = _
      rw [hwrap]
    rw [Source.items, Source.ofString, hparse, ← hone]
  have hsingle (length : Nat) :
      singleProblem [⟨[], i⟩] ItemKind.typeAlias.name length = none := by
    rw [singleProblem, Item.kind, hbody]
    rfl
  rw [parseType]
  refine bind_eq_ok.mpr ⟨_, hitems, ?_⟩
  rw [hsingle]
  obtain ⟨body, name, isPublic, text, start⟩ := i
  subst hbody
  rfl

/-- The parser gives plain types the trees that they have, where `tokens` is the tree of what the
token macro is called on: a text that holds nothing but an alias of a plain type, as messages show
the type, has this alias as its one entry. -/
structure FileParser.ReadsTypes (tokens : String → Tree) : Prop where
  encloses : ∀ text, IsSpelling text → (tokens text).Encloses text
  reads : ∀ t : TypeExpr, t.IsPlain → ∃ i : Item,
    FileParser.parse (bytesOf (typeText t.describe)) = .ok [.item i] ∧
      i.body = .typeAlias (t.node tokens)

end Parser
end Rust
end NodeSchema
