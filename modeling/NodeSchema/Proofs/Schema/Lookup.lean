import NodeSchema.Proofs.Result
import NodeSchema.Schema.Introspect

/-!
# What a written type means

`Scope.introspect` looks up a written type and says why that fails.  This file says what it finds,
as a relation with one rule for each form (`Meaning.Means`): the wrappers by their first argument,
`Punctuated` also by its last, tuples element by element, and every other path by the last name in
it.  What names and tokens stand for is left to a `Meaning`, so that the same rules can be read with
the tables that a schema is made from, and with the schema itself.

* `introspect_eq_ok_iff` — the lookup succeeds with a type iff the written type means it;
* `node_eq_ok_iff` — so a declaration makes a node iff its shown types mean the types of the node,
  in order.

Everything else that is said about nodes goes by these two, and does not open the lookup.
-/

set_option autoImplicit false

namespace NodeSchema

open Rust

/-! ## The relation -/

/-- The paths that stand for a type made of their first argument. -/
inductive Wrapper
  | option
  | vec
  | box

namespace Wrapper

/-- The name of a wrapper. -/
def name : Wrapper → String
  | .option => "Option"
  | .vec => "Vec"
  | .box => "Box"

/-- The type that a wrapper makes of another. -/
def apply : Wrapper → SchemaType → SchemaType
  | .option => .option
  | .vec => .vec
  | .box => .box

end Wrapper

/-- What the names and the tokens in written types stand for. -/
structure Meaning where
  /-- A name stands for a type. -/
  name : String → SchemaType → Prop
  /-- A spelling stands for the token of a symbol. -/
  token : String → String → Prop

namespace Meaning

/-- The name of the path that puts a token between elements. -/
def punctuated : String := "Punctuated"

/-- A written type means a schema type. -/
inductive Means (m : Meaning) : TypeExpr → SchemaType → Prop
  | wrapper {segments : List String} {arguments : List TypeExpr} {e : TypeExpr} {t : SchemaType}
      (w : Wrapper) (hname : TypeExpr.lastSegment segments = w.name)
      (hfirst : arguments.head? = some e) (h : Means m e t) :
      Means m (.path segments arguments) (w.apply t)
  | punctuated {segments : List String} {arguments : List TypeExpr} {e p : TypeExpr}
      {t : SchemaType} {symbol : String}
      (hname : TypeExpr.lastSegment segments = punctuated)
      (hfirst : arguments.head? = some e) (hlast : arguments.getLast? = some p)
      (h : Means m e t) (hseparator : Means m p (.token symbol)) :
      Means m (.path segments arguments) (.punctuated t symbol)
  | name {segments : List String} {arguments : List TypeExpr} {t : SchemaType}
      (hwrapper : ∀ w : Wrapper, TypeExpr.lastSegment segments ≠ w.name)
      (hpunctuated : TypeExpr.lastSegment segments ≠ punctuated)
      (h : m.name (TypeExpr.lastSegment segments) t) : Means m (.path segments arguments) t
  | tuple {es : List TypeExpr} {ts : List SchemaType} (hlength : es.length = ts.length)
      (h : ∀ {e t}, (e, t) ∈ es.zip ts → Means m e t) : Means m (.tuple es) (.tuple ts)
  | token {spelling symbol : String} (h : m.token spelling symbol) :
      Means m (.macroCall Scope.tokenMacro spelling) (.token symbol)

/-- A type keeps its meaning if the names and the tokens do. -/
theorem Means.mono {m m' : Meaning} (hname : ∀ {name t}, m.name name t → m'.name name t)
    (htoken : ∀ {spelling symbol}, m.token spelling symbol → m'.token spelling symbol)
    {e : TypeExpr} {t : SchemaType} (h : m.Means e t) : m'.Means e t := by
  induction h with
  | wrapper w hw hfirst _ ih => exact .wrapper w hw hfirst ih
  | punctuated hp hfirst hlast _ _ ih ihseparator =>
    exact .punctuated hp hfirst hlast ih ihseparator
  | name hwrapper hpunctuated h => exact .name hwrapper hpunctuated (hname h)
  | tuple hlength _ ih => exact .tuple hlength ih
  | token h => exact .token (htoken h)

end Meaning

namespace Scope

/-- What names and tokens stand for in a scope. -/
def meaning (s : Scope) : Meaning where
  name name t := s.named name = .ok t
  token spelling symbol := s.tokens.find? spelling = some symbol

variable {s : Scope}

/-! ## The lookup, form by form -/

/-- A type argument is found if there is one and it is a type that is found. -/
theorem typeArgument_eq_ok {shown : String} {written : Option TypeExpr} {t : SchemaType} :
    typeArgument shown written (written.map s.introspect) = .ok t ↔
      ∃ e, written = some e ∧ s.introspect e = .ok t := by
  cases written with
  | none =>
    constructor
    · intro h; cases h
    · rintro ⟨e, h, -⟩; cases h
  | some e =>
    constructor
    · intro h
      cases e with
      | argument text => cases h
      | path | tuple | macroCall | other => exact ⟨_, rfl, h⟩
    · rintro ⟨e, he, h⟩
      cases he
      cases e with
      | argument text => cases h
      | path | tuple | macroCall | other => exact h

theorem introspect_wrapper {segments : List String} {arguments : List TypeExpr} {w : Wrapper}
    (hname : TypeExpr.lastSegment segments = w.name) {t : SchemaType} :
    s.introspect (.path segments arguments) = .ok t ↔
      ∃ u, (∃ e, arguments.head? = some e ∧ s.introspect e = .ok u) ∧ w.apply u = t := by
  have hfirst : ∃ shown, s.introspect (.path segments arguments) =
      (typeArgument shown arguments.head? (arguments.head?.map s.introspect)).map w.apply := by
    rw [introspect, introspectAll_eq_map, List.head?_map, List.getLast?_map, hname]
    cases w with
    | option => exact ⟨_, if_pos rfl⟩
    | vec => exact ⟨_, rfl⟩
    | box => exact ⟨_, rfl⟩
  obtain ⟨shown, hshown⟩ := hfirst
  rw [hshown, map_eq_ok]
  simp only [typeArgument_eq_ok]

theorem introspect_punctuated {segments : List String} {arguments : List TypeExpr}
    (hname : TypeExpr.lastSegment segments = Meaning.punctuated) {t : SchemaType} :
    s.introspect (.path segments arguments) = .ok t ↔
      ∃ u symbol, (∃ e, arguments.head? = some e ∧ s.introspect e = .ok u) ∧
        (∃ p, arguments.getLast? = some p ∧ s.introspect p = .ok (.token symbol)) ∧
        .punctuated u symbol = t := by
  have hargument (shown : String) (written : Option TypeExpr) (u : SchemaType) :
      (∃ e, written = some e ∧ s.introspect e = .ok u) ↔
        typeArgument shown written (written.map s.introspect) = .ok u := typeArgument_eq_ok.symm
  rw [introspect, introspectAll_eq_map, List.head?_map, List.getLast?_map, hname,
    if_neg (by decide), if_pos (show Meaning.punctuated = "Punctuated" from rfl)]
  simp only [hargument (TypeExpr.path segments arguments).describe]
  generalize typeArgument _ arguments.head? _ = first
  generalize typeArgument _ arguments.getLast? _ = last
  constructor
  · intro h
    split at h
    · cases h
    · cases h
    · next element symbol => exact ⟨element, symbol, rfl, rfl, Except.ok.inj h⟩
    · cases h
  · rintro ⟨u, symbol, rfl, rfl, rfl⟩
    rfl

theorem introspect_named {segments : List String} {arguments : List TypeExpr}
    (hwrapper : ∀ w : Wrapper, TypeExpr.lastSegment segments ≠ w.name)
    (hpunctuated : TypeExpr.lastSegment segments ≠ Meaning.punctuated) :
    s.introspect (.path segments arguments) = s.named (TypeExpr.lastSegment segments) := by
  have hoption : TypeExpr.lastSegment segments ≠ "Option" := hwrapper .option
  have hvec : TypeExpr.lastSegment segments ≠ "Vec" := hwrapper .vec
  have hbox : TypeExpr.lastSegment segments ≠ "Box" := hwrapper .box
  have hseparated : TypeExpr.lastSegment segments ≠ "Punctuated" := hpunctuated
  rw [introspect, if_neg hoption, if_neg hseparated, if_neg hvec, if_neg hbox]

theorem introspect_tuple {es : List TypeExpr} {t : SchemaType} :
    s.introspect (.tuple es) = .ok t ↔
      ∃ ts, List.Forall₂ (fun e t ↦ s.introspect e = .ok t) es ts ∧ .tuple ts = t := by
  rw [introspect, introspectAll_eq_map, List.mapM_map, map_eq_ok]
  simp only [mapM_eq_ok]
  rfl

theorem introspect_macroCall {name spelling : String} {t : SchemaType} :
    s.introspect (.macroCall name spelling) = .ok t ↔
      name = tokenMacro ∧ ∃ symbol, s.tokens.find? spelling = some symbol ∧ .token symbol = t := by
  rw [introspect]
  constructor
  · intro h
    split at h
    · next hname =>
      split at h
      · next symbol hfind => exact ⟨hname, symbol, hfind, Except.ok.inj h⟩
      · cases h
    · cases h
  · rintro ⟨rfl, symbol, hfind, rfl⟩
    rw [if_pos rfl, hfind]

/-! ## The lookup finds what is meant -/

mutual
theorem means_of_introspect : ∀ (e : TypeExpr) (t : SchemaType),
    s.introspect e = .ok t → s.meaning.Means e t
  | .path segments arguments, t, h => by
    by_cases hwrapper : ∃ w : Wrapper, TypeExpr.lastSegment segments = w.name
    · obtain ⟨w, hname⟩ := hwrapper
      obtain ⟨u, ⟨e, hfirst, he⟩, rfl⟩ := (introspect_wrapper hname).mp h
      exact .wrapper w hname hfirst
        (means_of_introspectAll arguments e (List.mem_of_mem_head? hfirst) u he)
    · rw [not_exists] at hwrapper
      by_cases hpunctuated : TypeExpr.lastSegment segments = Meaning.punctuated
      · obtain ⟨u, symbol, ⟨e, hfirst, he⟩, ⟨p, hlast, hp⟩, rfl⟩ :=
          (introspect_punctuated hpunctuated).mp h
        exact .punctuated hpunctuated hfirst hlast
          (means_of_introspectAll arguments e (List.mem_of_mem_head? hfirst) u he)
          (means_of_introspectAll arguments p (List.mem_of_mem_getLast? hlast) _ hp)
      · rw [introspect_named hwrapper hpunctuated] at h
        exact .name hwrapper hpunctuated h
  | .tuple es, t, h => by
    obtain ⟨ts, hts, rfl⟩ := introspect_tuple.mp h
    obtain ⟨hlength, hzip⟩ := List.forall₂_iff_zip.mp hts
    exact .tuple hlength fun {e u} hmem ↦
      means_of_introspectAll es e (List.of_mem_zip hmem).1 u (hzip hmem)
  | .macroCall name spelling, t, h => by
    obtain ⟨rfl, symbol, hfind, rfl⟩ := introspect_macroCall.mp h
    exact .token hfind
  | .argument text, t, h => by cases h
  | .other text, t, h => by cases h
theorem means_of_introspectAll : ∀ es : List TypeExpr, ∀ e ∈ es, ∀ t : SchemaType,
    s.introspect e = .ok t → s.meaning.Means e t
  | [], e, he, _, _ => by cases he
  | e' :: es, e, he, t, h => by
    rcases List.mem_cons.mp he with heq | he
    · rw [heq] at h ⊢
      exact means_of_introspect e' t h
    · exact means_of_introspectAll es e he t h
end

theorem introspect_of_means {e : TypeExpr} {t : SchemaType} (h : s.meaning.Means e t) :
    s.introspect e = .ok t := by
  induction h with
  | wrapper w hname hfirst _ ih => exact (introspect_wrapper hname).mpr ⟨_, ⟨_, hfirst, ih⟩, rfl⟩
  | punctuated hname hfirst hlast _ _ ih ihseparator =>
    exact (introspect_punctuated hname).mpr
      ⟨_, _, ⟨_, hfirst, ih⟩, ⟨_, hlast, ihseparator⟩, rfl⟩
  | name hwrapper hpunctuated h => rw [introspect_named hwrapper hpunctuated, h]
  | tuple hlength _ ih =>
    exact introspect_tuple.mpr ⟨_, List.forall₂_iff_zip.mpr ⟨hlength, ih⟩, rfl⟩
  | token h => exact introspect_macroCall.mpr ⟨rfl, _, h, rfl⟩

/-- **The lookup finds what a written type means**, and finds something for every type that means
something. -/
theorem introspect_eq_ok_iff {e : TypeExpr} {t : SchemaType} :
    s.introspect e = .ok t ↔ s.meaning.Means e t :=
  ⟨means_of_introspect e t, introspect_of_means⟩

end Scope

/-! ## Nodes -/

/-- The data of a node lists the members of a declaration, in order and by their names, with types
that are related to the declared ones.  A struct that keeps a field to itself lists none, and hidden
variants are not listed. -/
inductive NodeData.Lists (R : TypeExpr → SchemaType → Prop) : NodeData → Members → Prop
  | fields {fs : List Field} {ts : List (String × SchemaType)}
      (hpublic : fs.all Field.isPublic = true)
      (h : List.Forall₂ (fun f t ↦ t.1 = f.name ∧ R f.type t.2) fs ts) :
      Lists R (.fields ts) (.struct fs)
  | opaque_ {fs : List Field} (hprivate : fs.all Field.isPublic = false) :
      Lists R .opaque_ (.struct fs)
  | variants {vs : List VariantDeclaration} {nonExhaustive : Bool}
      {ts : List (String × List SchemaType)}
      (h : List.Forall₂ (fun v t ↦ t.1 = v.name ∧ List.Forall₂ R v.members t.2)
        (vs.filter fun v ↦ !v.isHidden) ts) :
      Lists R (.variants ts) (.enum vs nonExhaustive)

/-- A node lists every variant of its declaration. -/
def Members.isExhaustive : Members → Bool
  | .struct _ => true
  | .enum vs nonExhaustive => !(nonExhaustive || vs.any VariantDeclaration.isHidden)

namespace Scope

variable {s : Scope}

theorem fields_eq_ok {fs : List Field} {ts : List (String × SchemaType)} :
    s.fields fs = .ok ts ↔
      List.Forall₂ (fun f t ↦ t.1 = f.name ∧ s.meaning.Means f.type t.2) fs ts := by
  rw [fields, mapM_eq_ok]
  refine iff_of_eq (congrArg (List.Forall₂ · fs ts) ?_)
  funext f t
  rw [map_eq_ok, eq_iff_iff]
  simp only [introspect_eq_ok_iff]
  constructor
  · rintro ⟨u, hu, rfl⟩
    exact ⟨rfl, hu⟩
  · rintro ⟨hname, hu⟩
    exact ⟨t.2, hu, by rw [← hname]⟩

theorem variants_eq_ok {vs : List VariantDeclaration} {ts : List (String × List SchemaType)} :
    s.variants vs = .ok ts ↔
      List.Forall₂ (fun v t ↦ t.1 = v.name ∧ List.Forall₂ s.meaning.Means v.members t.2) vs ts := by
  rw [variants, mapM_eq_ok]
  refine iff_of_eq (congrArg (List.Forall₂ · vs ts) ?_)
  funext v t
  rw [map_eq_ok, eq_iff_iff]
  simp only [mapM_eq_ok, introspect_eq_ok_iff]
  constructor
  · rintro ⟨us, hus, rfl⟩
    exact ⟨rfl, hus⟩
  · rintro ⟨hname, hus⟩
    exact ⟨t.2, hus, by rw [← hname]⟩

/-- A struct makes a node with its fields if all of them are public. -/
theorem node_struct {ident : String} {fs : List Field} {features : Features} :
    s.node ⟨ident, .struct fs, features⟩ =
      if fs.all Field.isPublic then
        (s.fields fs).map fun ts ↦ ⟨ident, features.names.map .name, .fields ts, true⟩
      else .ok ⟨ident, features.names.map .name, .opaque_, true⟩ := rfl

/-- An enum makes a node with the variants that are not hidden. -/
theorem node_enum {ident : String} {vs : List VariantDeclaration} {nonExhaustive : Bool}
    {features : Features} :
    s.node ⟨ident, .enum vs nonExhaustive, features⟩ =
      (s.variants (vs.filter fun v ↦ !v.isHidden)).map fun ts ↦
        ⟨ident, features.names.map .name, .variants ts,
          Members.isExhaustive (.enum vs nonExhaustive)⟩ := rfl

/-- **A declaration makes the node that lists its members with the types that they mean.** -/
theorem node_eq_ok_iff {d : Declaration} {n : Node} :
    s.node d = .ok n ↔ n.ident = d.ident ∧ n.features = d.features.names.map .name ∧
      n.data.Lists s.meaning.Means d.members ∧ n.exhaustive = d.members.isExhaustive := by
  obtain ⟨ident, members, features⟩ := d
  obtain ⟨ident', features', data, exhaustive⟩ := n
  cases members with
  | struct fs =>
    rw [node_struct]
    cases hpublic : fs.all Field.isPublic with
    | true =>
      rw [if_pos rfl, map_eq_ok]
      simp only [fields_eq_ok, Node.mk.injEq]
      constructor
      · rintro ⟨ts, hts, rfl, rfl, rfl, rfl⟩
        exact ⟨rfl, rfl, .fields hpublic hts, rfl⟩
      · rintro ⟨rfl, rfl, hlists, rfl⟩
        cases hlists with
        | fields _ hts => exact ⟨_, hts, rfl, rfl, rfl, rfl⟩
        | opaque_ hprivate => rw [hpublic] at hprivate; cases hprivate
    | false =>
      rw [if_neg Bool.false_ne_true]
      dsimp only
      constructor
      · intro h
        cases h
        exact ⟨rfl, rfl, .opaque_ hpublic, rfl⟩
      · rintro ⟨rfl, rfl, hlists, rfl⟩
        cases hlists with
        | fields hall _ => rw [hpublic] at hall; cases hall
        | opaque_ _ => rfl
  | enum vs nonExhaustive =>
    rw [node_enum, map_eq_ok]
    simp only [variants_eq_ok, Node.mk.injEq]
    constructor
    · rintro ⟨ts, hts, rfl, rfl, rfl, rfl⟩
      exact ⟨rfl, rfl, .variants hts, rfl⟩
    · rintro ⟨rfl, rfl, hlists, rfl⟩
      cases hlists with
      | variants hts => exact ⟨_, hts, rfl, rfl, rfl, rfl⟩

end Scope
end NodeSchema
