import NodeSchema.Proofs.Rust.PathText

/-!
# Types with other blanks and comments

`TypeNode.Respaced` says of two types in syntax trees that they have the same tokens and differ in
the blanks and comments between them.  Blanks may stand anywhere.  A comment that stands in an
argument list, in a tuple or behind a path is a node of its own or none, and the text of no path
holds it; next to the colons of a path it would be a part of the text, so that such a text is no
`IsPathText`.

Respaced types are read alike (`TypeNode.Respaced.alike`): they have the same paths with the same
arguments, and the same tuples and macros.  Only text differs that is kept as it stands in the
source, and where no text is kept the types are equal (`TypeExpr.Alike.eq_of_isNamed`).
-/

set_option autoImplicit false

namespace NodeSchema
namespace Rust

/-! ## Tokens without what stands between them -/

/-- A token apart from its place and from what stands before it. -/
def Token.unspaced (t : Token) : Token := { t with gap := [], start := 0, stop := 0 }

namespace Tree

mutual
/-- A tree apart from places and from what stands between its tokens. -/
def unspaced : Tree → Tree
  | .leaf t => .leaf t.unspaced
  | .group o body c => .group o.unspaced (unspacedAll body) c.unspaced
/-- Trees apart from places and from what stands between their tokens. -/
def unspacedAll : List Tree → List Tree
  | [] => []
  | t :: ts => unspaced t :: unspacedAll ts
end

mutual
theorem rendered_unspaced (t : Tree) : t.unspaced.rendered = t.rendered := by
  cases t with
  | leaf t => rfl
  | group o body c =>
    rw [unspaced, rendered, renderedAll_unspacedAll body, rendered]
    rfl
theorem renderedAll_unspacedAll (ts : List Tree) :
    renderedAll (unspacedAll ts) = renderedAll ts := by
  cases ts with
  | nil => rfl
  | cons t ts =>
    rw [unspacedAll, renderedAll, rendered_unspaced t, renderedAll_unspacedAll ts, renderedAll]
end

theorem renderBody_unspaced (t : Tree) : t.unspaced.renderBody = t.renderBody := by
  have hbody : t.unspaced.body = unspacedAll t.body := by cases t <;> rfl
  rw [renderBody, hbody, renderedAll_unspacedAll, renderBody]

end Tree

/-! ## Types in syntax trees -/

namespace TypeNode

mutual
/-- The types have the same tokens, with other blanks and comments between them. -/
inductive Respaced : TypeNode → TypeNode → Prop
  | path {names : List String} {text text' : String} {ns ns' : List TypeNode}
    (htext : IsPathText names text.toList) (htext' : IsPathText names text'.toList)
    (hns : RespacedAll ns ns') : Respaced (.path text ns) (.path text' ns')
  | tuple {ns ns' : List TypeNode} (hns : RespacedAll ns ns') : Respaced (.tuple ns) (.tuple ns')
  | macroCall {names : List String} {name name' : String} {tokens tokens' : Tree}
    (hname : IsPathText names name.toList) (hname' : IsPathText names name'.toList)
    (htokens : tokens'.unspaced = tokens.unspaced) :
    Respaced (.macroCall name tokens) (.macroCall name' tokens')
  /-- Nothing is asked of text that is kept as it stands. -/
  | argument (text text' : String) : Respaced (.argument text) (.argument text')
  | other (text text' : String) : Respaced (.other text) (.other text')
/-- The types are respaced one by one, and comments may come and go. -/
inductive RespacedAll : List TypeNode → List TypeNode → Prop
  | nil : RespacedAll [] []
  | cons {n n' : TypeNode} {ns ns' : List TypeNode} (hn : Respaced n n')
    (hns : RespacedAll ns ns') : RespacedAll (n :: ns) (n' :: ns')
  | insert {text : String} {ns ns' : List TypeNode} (hns : RespacedAll ns ns') :
    RespacedAll ns (.comment text :: ns')
  | remove {text : String} {ns ns' : List TypeNode} (hns : RespacedAll ns ns') :
    RespacedAll (.comment text :: ns) ns'
end

end TypeNode

/-! ## Types that are alike -/

namespace TypeExpr

mutual
/-- The types are the same but for text that is kept of types of other forms. -/
inductive Alike : TypeExpr → TypeExpr → Prop
  | path {segments : List String} {as as' : List TypeExpr} (has : AlikeAll as as') :
    Alike (.path segments as) (.path segments as')
  | tuple {as as' : List TypeExpr} (has : AlikeAll as as') : Alike (.tuple as) (.tuple as')
  | macroCall (name tokens : String) : Alike (.macroCall name tokens) (.macroCall name tokens)
  | argument (text text' : String) : Alike (.argument text) (.argument text')
  | other (text text' : String) : Alike (.other text) (.other text')
/-- The types are the same one by one, but for text that is kept. -/
inductive AlikeAll : List TypeExpr → List TypeExpr → Prop
  | nil : AlikeAll [] []
  | cons {a a' : TypeExpr} {as as' : List TypeExpr} (ha : Alike a a') (has : AlikeAll as as') :
    AlikeAll (a :: as) (a' :: as')
end

/-- No text is kept of the type or of a part of it. -/
inductive IsNamed : TypeExpr → Prop
  | path {segments : List String} {as : List TypeExpr} (has : ∀ a ∈ as, IsNamed a) :
    IsNamed (.path segments as)
  | tuple {as : List TypeExpr} (has : ∀ a ∈ as, IsNamed a) : IsNamed (.tuple as)
  | macroCall (name tokens : String) : IsNamed (.macroCall name tokens)

mutual
/-- Types that are alike are equal if no text of them is kept. -/
theorem Alike.eq_of_isNamed (t : TypeExpr) {t' : TypeExpr} (h : Alike t t')
    (hnamed : t.IsNamed) : t' = t := by
  cases t with
  | path segments as =>
    cases hnamed with
    | path has =>
      cases h with
      | path h => rw [AlikeAll.eq_of_isNamed as h has]
  | tuple as =>
    cases hnamed with
    | tuple has =>
      cases h with
      | tuple h => rw [AlikeAll.eq_of_isNamed as h has]
  | macroCall name tokens =>
    cases h
    rfl
  | argument => cases hnamed
  | other => cases hnamed
theorem AlikeAll.eq_of_isNamed (as : List TypeExpr) {as' : List TypeExpr} (h : AlikeAll as as')
    (has : ∀ a ∈ as, a.IsNamed) : as' = as := by
  cases as with
  | nil =>
    cases h
    rfl
  | cons a as =>
    obtain ⟨ha, has⟩ := List.forall_mem_cons.mp has
    cases h with
    | cons h hs => rw [Alike.eq_of_isNamed a h ha, AlikeAll.eq_of_isNamed as hs has]
end

end TypeExpr

/-! ## What respaced types are read as -/

namespace TypeNode

open TypeExpr (Alike AlikeAll)

/-- A type that is respaced is no comment, so it is read in its place. -/
theorem Respaced.exprs_cons {n n' : TypeNode} (h : n.Respaced n') (ns : List TypeNode) :
    exprs (n :: ns) = n.expr :: exprs ns ∧ exprs (n' :: ns) = n'.expr :: exprs ns := by
  cases h <;> exact ⟨rfl, rfl⟩

/-- An argument is read as a type unless it is none. -/
theorem Respaced.argumentExprs_cons {n n' : TypeNode} (h : n.Respaced n')
    (halike : n.expr.Alike n'.expr) {ns ns' : List TypeNode}
    (hns : AlikeAll (argumentExprs ns) (argumentExprs ns')) :
    AlikeAll (argumentExprs (n :: ns)) (argumentExprs (n' :: ns')) := by
  cases h with
  | argument text text' => exact .cons (.argument text text') hns
  | path | tuple | macroCall | other => exact .cons halike hns

mutual
/-- **Respaced types are read alike.** -/
theorem Respaced.alike : {n n' : TypeNode} → n.Respaced n' → n.expr.Alike n'.expr
  | _, _, .path htext htext' hns => by
    have harguments := (RespacedAll.alike hns).2
    rw [expr, expr, segmentsOf_of_isPathText htext, segmentsOf_of_isPathText htext']
    exact .path harguments
  | _, _, .tuple hns => .tuple (RespacedAll.alike hns).1
  | _, _, .macroCall hname hname' htokens => by
    rw [expr, expr, segmentsOf_of_isPathText hname, segmentsOf_of_isPathText hname',
      ← Tree.renderBody_unspaced, ← htokens, Tree.renderBody_unspaced]
    exact .macroCall _ _
  | _, _, .argument text text' => .other text text'
  | _, _, .other text text' => .other text text'
theorem RespacedAll.alike : {ns ns' : List TypeNode} → RespacedAll ns ns' →
    AlikeAll (exprs ns) (exprs ns') ∧ AlikeAll (argumentExprs ns) (argumentExprs ns')
  | _, _, .nil => ⟨.nil, .nil⟩
  | _, _, @RespacedAll.cons n n' ns ns' hn hns => by
    obtain ⟨hexprs, harguments⟩ := RespacedAll.alike hns
    have halike := Respaced.alike hn
    refine ⟨?_, hn.argumentExprs_cons halike harguments⟩
    rw [(hn.exprs_cons ns).1, (hn.exprs_cons ns').2]
    exact .cons halike hexprs
  | _, _, .insert hns => have halike := RespacedAll.alike hns; halike
  | _, _, .remove hns => have halike := RespacedAll.alike hns; halike
end

end TypeNode
end Rust
end NodeSchema
