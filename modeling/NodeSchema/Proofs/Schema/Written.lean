import NodeSchema.Proofs.Schema.Closed
import NodeSchema.Schema.Written

/-!
# Looking up what is written for a type

`SchemaType.written` writes a schema type the way a declaration would, and the lookup finds this
very type again (`introspect_written`).  Three things could go wrong, and the assumptions on the
scope exclude them:

* a name is taken for a wrapper, or for a leaf of another kind (`Scope.IsUnshadowed`);
* a symbol is written with the spelling of another one (`Scope.IsSpelledBy`);
* the type mentions what the scope does not have (`Scope.Knows`).

Of a path only the last segment counts, so further segments in front of paths change nothing
(`Qualifies`, `Means.of_qualifies`).
-/

set_option autoImplicit false

namespace NodeSchema

open Rust

/-! ## Further segments -/

namespace Rust.TypeExpr

/-- The first type is the second with any number of further segments in front of each path in
it. -/
inductive Qualifies : TypeExpr → TypeExpr → Prop
  | path {leading segments : List String} {as bs : List TypeExpr} (hne : segments ≠ [])
      (hlength : as.length = bs.length) (h : ∀ {a b}, (a, b) ∈ as.zip bs → Qualifies a b) :
      Qualifies (.path (leading ++ segments) as) (.path segments bs)
  | tuple {as bs : List TypeExpr} (hlength : as.length = bs.length)
      (h : ∀ {a b}, (a, b) ∈ as.zip bs → Qualifies a b) : Qualifies (.tuple as) (.tuple bs)
  | macroCall (name tokens : String) : Qualifies (.macroCall name tokens) (.macroCall name tokens)
  | argument (text : String) : Qualifies (.argument text) (.argument text)
  | other (text : String) : Qualifies (.other text) (.other text)

theorem lastSegment_append (leading : List String) {segments : List String} (h : segments ≠ []) :
    lastSegment (leading ++ segments) = lastSegment segments := by
  rw [lastSegment, lastSegment, List.getLast?_append_of_ne_nil _ h]

end Rust.TypeExpr

theorem exists_head?_of_forall₂ {α β : Type} {R : α → β → Prop} {as : List α} {bs : List β}
    (h : List.Forall₂ R as bs) {b : β} (hb : bs.head? = some b) :
    ∃ a, as.head? = some a ∧ R a b := by
  cases h with
  | nil => simp at hb
  | cons hab _ =>
    obtain rfl := Option.some.inj hb
    exact ⟨_, rfl, hab⟩

theorem exists_getLast?_of_forall₂ {α β : Type} {R : α → β → Prop} {as : List α} {bs : List β}
    (h : List.Forall₂ R as bs) {b : β} (hb : bs.getLast? = some b) :
    ∃ a, as.getLast? = some a ∧ R a b := by
  rw [List.getLast?_eq_head?_reverse] at hb ⊢
  exact exists_head?_of_forall₂ (List.rel_reverse h) hb

/-- Between elements at one place of two lists stands the element at this place of a third. -/
theorem exists_mem_zip {α β γ : Type} {as : List α} {bs : List β} {cs : List γ} {a : α} {c : γ}
    (hlength : as.length = bs.length) (h : (a, c) ∈ as.zip cs) :
    ∃ b, (a, b) ∈ as.zip bs ∧ (b, c) ∈ bs.zip cs := by
  obtain ⟨i, hi, heq⟩ := List.getElem_of_mem h
  rw [List.length_zip] at hi
  rw [List.getElem_zip, Prod.mk.injEq] at heq
  obtain ⟨rfl, rfl⟩ := heq
  have hb : i < bs.length := by omega
  refine ⟨bs[i], ?_, ?_⟩
  · rw [← List.getElem_zip (h := by rw [List.length_zip]; omega)]
    exact List.getElem_mem _
  · rw [← List.getElem_zip (h := by rw [List.length_zip]; omega)]
    exact List.getElem_mem _

namespace Meaning

open TypeExpr

variable {m : Meaning}

/-- **A type keeps its meaning under further segments**, in all paths of it. -/
theorem Means.of_qualifies {e : TypeExpr} {t : SchemaType} (h : m.Means e t) :
    ∀ {e'}, Qualifies e' e → m.Means e' t := by
  induction h with
  | wrapper w hname hfirst _ ih =>
    rintro _ (⟨hne, hlength, hall⟩)
    obtain ⟨a, ha, hq⟩ :=
      exists_head?_of_forall₂ (List.forall₂_iff_zip.mpr ⟨hlength, hall⟩) hfirst
    exact .wrapper w ((lastSegment_append _ hne).trans hname) ha (ih hq)
  | punctuated hname hfirst hlast _ _ ih ihseparator =>
    rintro _ (⟨hne, hlength, hall⟩)
    have hboth := List.forall₂_iff_zip.mpr ⟨hlength, hall⟩
    obtain ⟨a, ha, hq⟩ := exists_head?_of_forall₂ hboth hfirst
    obtain ⟨p, hp, hqp⟩ := exists_getLast?_of_forall₂ hboth hlast
    exact .punctuated ((lastSegment_append _ hne).trans hname) ha hp (ih hq) (ihseparator hqp)
  | name hwrapper hpunctuated h =>
    rintro _ (⟨hne, -, -⟩)
    rw [← lastSegment_append _ hne] at hwrapper hpunctuated h
    exact .name hwrapper hpunctuated h
  | @tuple es ts hlength _ ih =>
    rintro _ (_ | ⟨hlength', hall⟩)
    refine .tuple (hlength'.trans hlength) fun {a t} hmem ↦ ?_
    obtain ⟨b, hab, hbt⟩ := exists_mem_zip hlength' hmem
    exact ih hbt (hall hab)
  | token h =>
    rintro _ (_ | _ | _)
    exact .token h

end Meaning

/-! ## What is written -/

/-- The names of the paths that are looked up by their arguments. -/
def wrapperNames : List String :=
  [Wrapper.option.name, Meaning.punctuated, Wrapper.vec.name, Wrapper.box.name]

namespace Scope

/-- The tables in which a name is looked up, in this order. -/
def tables (s : Scope) : List (List String) :=
  [wrapperNames, s.leaves.groups, s.leaves.external, s.leaves.std, s.nodes]

/-- No name stands in two of the tables, so that none of them hides a name of a later one. -/
def IsUnshadowed (s : Scope) : Prop := s.tables.Pairwise fun as bs ↦ ∀ name ∈ bs, name ∉ as

instance (s : Scope) : Decidable s.IsUnshadowed := by
  unfold IsUnshadowed
  infer_instance

/-- The scope has the symbol of a token. -/
def HasSymbol (s : Scope) (symbol : String) : Prop :=
  ∃ spelling, s.tokens.find? spelling = some symbol

/-- Every symbol has a spelling that stands for it. -/
def IsSpelledBy (s : Scope) (spelling : String → String) : Prop :=
  ∀ symbol, s.HasSymbol symbol → s.tokens.find? (spelling symbol) = some symbol

/-- What a type itself mentions is there. -/
def Knows (s : Scope) : SchemaType → Prop
  | .node ident => ident ∈ s.nodes
  | .std name => name ∈ s.leaves.std
  | .external name => name ∈ s.leaves.external
  | .group name => name ∈ s.leaves.groups
  | .token symbol | .punctuated _ symbol => s.HasSymbol symbol
  | .option _ | .box _ | .vec _ | .tuple _ => True

variable {s : Scope}

namespace IsUnshadowed

variable (h : s.IsUnshadowed)
include h

theorem notMem {i j : Nat} (hij : i < j) {as bs : List String} (has : s.tables[i]? = some as)
    (hbs : s.tables[j]? = some bs) {name : String} (hname : name ∈ bs) : name ∉ as := by
  obtain ⟨hi, rfl⟩ := List.getElem?_eq_some_iff.mp has
  obtain ⟨hj, rfl⟩ := List.getElem?_eq_some_iff.mp hbs
  exact List.pairwise_iff_getElem.mp h i j hi hj hij name hname

theorem named_external {name : String} (hname : name ∈ s.leaves.external) :
    s.named name = .ok (.external name) := by
  have hgroup : name ∉ s.leaves.groups := h.notMem (show 1 < 2 by decide) rfl rfl hname
  simp [named, hgroup, hname]

theorem named_std {name : String} (hname : name ∈ s.leaves.std) :
    s.named name = .ok (.std name) := by
  have hgroup : name ∉ s.leaves.groups := h.notMem (show 1 < 3 by decide) rfl rfl hname
  have hexternal : name ∉ s.leaves.external := h.notMem (show 2 < 3 by decide) rfl rfl hname
  simp [named, hgroup, hexternal, hname]

theorem named_node {name : String} (hname : name ∈ s.nodes) :
    s.named name = .ok (.node name) := by
  have hgroup : name ∉ s.leaves.groups := h.notMem (show 1 < 4 by decide) rfl rfl hname
  have hexternal : name ∉ s.leaves.external := h.notMem (show 2 < 4 by decide) rfl rfl hname
  have hstd : name ∉ s.leaves.std := h.notMem (show 3 < 4 by decide) rfl rfl hname
  simp [named, hgroup, hexternal, hstd, Alias.resolve, Alias.resolveFrom, hname, Except.map]

/-- A name in a table behind that of the wrappers stands for what it is found as. -/
theorem means_plainPath {j : Nat} (hj : 0 < j) {bs : List String} (hbs : s.tables[j]? = some bs)
    {name : String} (hname : name ∈ bs) {t : SchemaType} (hnamed : s.named name = .ok t) :
    s.meaning.Means (SchemaType.plainPath name []) t := by
  have hwrapper : name ∉ wrapperNames := h.notMem hj rfl hbs hname
  refine .name (fun w hw ↦ hwrapper ?_) (fun hp ↦ hwrapper ?_) hnamed
  · rw [show name = w.name from hw]
    cases w <;> simp [wrapperNames]
  · rw [show name = Meaning.punctuated from hp]
    simp [wrapperNames]

end IsUnshadowed

/-- The token macro on the spelling of a symbol stands for the symbol. -/
theorem IsSpelledBy.means_writtenToken {spelling : String → String} (h : s.IsSpelledBy spelling)
    {symbol : String} (hsymbol : s.HasSymbol symbol) :
    s.meaning.Means (SchemaType.writtenToken (spelling symbol)) (.token symbol) :=
  .token (h symbol hsymbol)

variable {spelling : String → String}

mutual
theorem means_written (hnames : s.IsUnshadowed) (hspelling : s.IsSpelledBy spelling) :
    ∀ t : SchemaType, (∀ u ∈ t.parts, s.Knows u) → s.meaning.Means (t.written spelling) t
  | .node name, ht => by
    have hname : name ∈ s.nodes := ht (.node name) List.mem_cons_self
    exact hnames.means_plainPath (j := 4) (by decide) rfl hname (hnames.named_node hname)
  | .std name, ht => by
    have hname : name ∈ s.leaves.std := ht (.std name) List.mem_cons_self
    exact hnames.means_plainPath (j := 3) (by decide) rfl hname (hnames.named_std hname)
  | .external name, ht => by
    have hname : name ∈ s.leaves.external := ht (.external name) List.mem_cons_self
    exact hnames.means_plainPath (j := 2) (by decide) rfl hname (hnames.named_external hname)
  | .group name, ht => by
    have hname : name ∈ s.leaves.groups := ht (.group name) List.mem_cons_self
    exact hnames.means_plainPath (j := 1) (by decide) rfl hname (by simp [named, hname])
  | .token symbol, ht => hspelling.means_writtenToken (ht (.token symbol) List.mem_cons_self)
  | .punctuated element separator, ht => by
    obtain ⟨hseparator, helement⟩ := List.forall_mem_cons.mp ht
    exact .punctuated rfl rfl rfl (means_written hnames hspelling element helement)
      (hspelling.means_writtenToken hseparator)
  | .option inner, ht => by
    have hinner := means_written hnames hspelling inner (List.forall_mem_cons.mp ht).2
    exact .wrapper .option rfl rfl hinner
  | .box inner, ht => by
    have hinner := means_written hnames hspelling inner (List.forall_mem_cons.mp ht).2
    exact .wrapper .box rfl rfl hinner
  | .vec inner, ht => by
    have hinner := means_written hnames hspelling inner (List.forall_mem_cons.mp ht).2
    exact .wrapper .vec rfl rfl hinner
  | .tuple elements, ht => by
    have hall := means_writtenAll hnames hspelling elements (List.forall_mem_cons.mp ht).2
    obtain ⟨hlength, hzip⟩ := List.forall₂_iff_zip.mp hall
    exact .tuple hlength hzip
theorem means_writtenAll (hnames : s.IsUnshadowed) (hspelling : s.IsSpelledBy spelling) :
    ∀ ts : List SchemaType, (∀ u ∈ SchemaType.partsAll ts, s.Knows u) →
      List.Forall₂ s.meaning.Means (SchemaType.writtenAll spelling ts) ts
  | [], _ => .nil
  | t :: ts, hts => by
    obtain ⟨ht, hts⟩ := List.forall_mem_append.mp hts
    exact .cons (means_written hnames hspelling t ht) (means_writtenAll hnames hspelling ts hts)
end

/-- **What is written for a type is looked up as this very type**, whatever segments are put in
front of its paths.  No name may stand in two tables, and every symbol needs a spelling that stands
for it. -/
theorem introspect_written (hnames : s.IsUnshadowed) (hspelling : s.IsSpelledBy spelling)
    {t : SchemaType} (ht : ∀ u ∈ t.parts, s.Knows u) :
    s.introspect (t.written spelling) = .ok t ∧
      ∀ e, e.Qualifies (t.written spelling) → s.introspect e = .ok t := by
  have hmeans := means_written hnames hspelling t ht
  exact ⟨introspect_of_means hmeans, fun e he ↦ introspect_of_means (hmeans.of_qualifies he)⟩

/-- A scope in which aliases and tokens stand beside the nodes. -/
def sampleScope : Scope where
  nodes := ["Expr", "Pat"]
  aliases := ⟨[("PatLit", "Expr")]⟩
  tokens := ⟨[(",", "Comma"), ("::", "PathSep")]⟩
  leaves := .default

/-- A spelling of each token of `sampleScope`. -/
def sampleSpelling (symbol : String) : String := if symbol = "Comma" then "," else "::"

/-- A type with wrappers around names of several kinds. -/
def sampleType : SchemaType :=
  .punctuated (.option (.tuple [.box (.node "Expr"), .token "PathSep", .group "Paren"])) "Comma"

/-- The type as it may be written. -/
def sampleExpr : TypeExpr :=
  .path ["syn", "Punctuated"] [.path ["Option"] [.tuple [.path ["Box"] [.path ["crate", "Expr"] []],
    .macroCall "Token" "::", .path ["token", "Paren"] []]], .macroCall "Token" ","]

theorem isSpelledBy_sampleScope : sampleScope.IsSpelledBy sampleSpelling := by
  rintro symbol ⟨spelling, h⟩
  have hmem := Table.mem_of_find? h
  simp only [sampleScope, List.mem_cons, Prod.mk.injEq, List.not_mem_nil, or_false] at hmem
  rcases hmem with ⟨-, rfl⟩ | ⟨-, rfl⟩ <;> decide

theorem knows_sampleType : ∀ u ∈ sampleType.parts, sampleScope.Knows u := by
  have hcomma : sampleScope.HasSymbol "Comma" := ⟨",", by decide⟩
  have hpathSep : sampleScope.HasSymbol "PathSep" := ⟨"::", by decide⟩
  have hexpr : "Expr" ∈ sampleScope.nodes := by decide
  have hparen : "Paren" ∈ sampleScope.leaves.groups := by decide
  simp only [sampleType, SchemaType.parts, SchemaType.partsAll, List.forall_mem_cons,
    List.cons_append, List.nil_append]
  exact ⟨hcomma, trivial, trivial, trivial, hexpr, hpathSep, hparen,
    List.forall_mem_nil _⟩

theorem qualifies_sampleExpr : sampleExpr.Qualifies (sampleType.written sampleSpelling) := by
  have hname (leading : List String) (name : String) :
      (TypeExpr.path (leading ++ [name]) []).Qualifies (.path [name] []) :=
    .path (List.cons_ne_nil _ _) rfl (by simp)
  have hone (name : String) {e e' : TypeExpr} (h : e.Qualifies e') :
      (TypeExpr.path ([] ++ [name]) [e]).Qualifies (.path [name] [e']) :=
    .path (List.cons_ne_nil _ _) rfl (by simpa using h)
  have htuple : (TypeExpr.tuple [.path ["Box"] [.path ["crate", "Expr"] []],
      .macroCall "Token" "::", .path ["token", "Paren"] []]).Qualifies
        (.tuple [.path ["Box"] [.path ["Expr"] []], .macroCall "Token" "::",
          .path ["Paren"] []]) := by
    refine .tuple rfl fun {a b} hmem ↦ ?_
    simp only [List.zip_cons_cons, List.zip_nil_right, List.mem_cons, Prod.mk.injEq,
      List.not_mem_nil, or_false] at hmem
    obtain ⟨rfl, rfl⟩ | ⟨rfl, rfl⟩ | ⟨rfl, rfl⟩ := hmem
    · exact hone "Box" (hname ["crate"] "Expr")
    · exact .macroCall _ _
    · exact hname ["token"] "Paren"
  show (TypeExpr.path (["syn"] ++ ["Punctuated"]) _).Qualifies _
  refine .path (List.cons_ne_nil _ _) rfl fun {a b} hmem ↦ ?_
  simp only [List.zip_cons_cons, List.zip_nil_right, List.mem_cons, Prod.mk.injEq,
    List.not_mem_nil, or_false] at hmem
  obtain ⟨rfl, rfl⟩ | ⟨rfl, rfl⟩ := hmem
  · exact hone "Option" htuple
  · exact .macroCall _ _

theorem introspect_written_sample : sampleScope.IsUnshadowed ∧
    sampleScope.IsSpelledBy sampleSpelling ∧ (∀ u ∈ sampleType.parts, sampleScope.Knows u) ∧
    sampleExpr.Qualifies (sampleType.written sampleSpelling) ∧
    sampleScope.introspect sampleExpr = .ok sampleType := by
  have hnames : sampleScope.IsUnshadowed := by decide
  exact ⟨hnames, isSpelledBy_sampleScope, knows_sampleType, qualifies_sampleExpr,
    (introspect_written hnames isSpelledBy_sampleScope knows_sampleType).2 _ qualifies_sampleExpr⟩

end Scope
end NodeSchema
