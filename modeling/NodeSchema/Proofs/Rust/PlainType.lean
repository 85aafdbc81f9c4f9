import NodeSchema.Proofs.Rust.Spelled
import NodeSchema.Rust.Grammar.Type

/-!
# Plain types as token trees

A plain type is written as the token trees `TypeExpr.trees`, and they are spelled the way messages
show the type (`TypeExpr.spelled_trees`).
-/

set_option autoImplicit false

namespace NodeSchema
namespace Rust

open Text Lexeme Rust.Tree

/-! ## Trees -/

/-- The segments of a path behind the first one. -/
def segmentTrees (segments : List String) : List Tree :=
  segments.flatMap fun s ↦
    [.leaf (.ofMark [] ':'), .leaf (.ofMark [] ':'), .leaf (.ofWord [] s)]

/-- The segments of a path. -/
def pathTrees (gap : List Lexeme) : List String → List Tree
  | [] => []
  | s :: segments => .leaf (.ofWord gap s) :: segmentTrees segments

/-- What the token macro is called on. -/
def spellingTrees (text : String) : List Tree :=
  if text.toList.head?.any isIdentStart then [.leaf (.ofWord [] text)]
  else text.toList.map fun c ↦ .leaf (.ofMark [] c)

namespace TypeExpr

mutual
/-- What a type is written as, with lexemes before it. -/
def trees (gap : List Lexeme) : TypeExpr → List Tree
  | .path segments arguments =>
    pathTrees gap segments ++
      if arguments.isEmpty then []
      else .leaf (.ofMark [] '<') :: (treesAll [] arguments ++ [.leaf (.ofMark [] '>')])
  | .tuple elements => [.group (.ofMark gap '(') (treesAll [] elements) (.ofMark [] ')')]
  | .macroCall name tokens =>
    [.leaf (.ofWord gap name), .leaf (.ofMark [] '!'),
      .group (.ofMark [] '[') (spellingTrees tokens) (.ofMark [] ']')]
  | .argument _ | .other _ => []
/-- Types with commas between them, with lexemes before the first. -/
def treesAll (gap : List Lexeme) : List TypeExpr → List Tree
  | [] => []
  | t :: ts => trees gap t ++ treesAfter ts
/-- Types with a comma before each. -/
def treesAfter : List TypeExpr → List Tree
  | [] => []
  | t :: ts => .leaf (.ofMark [] ',') :: (trees space t ++ treesAfter ts)
end

end TypeExpr

/-! ## How the trees are spelled -/

theorem endsToken_flatMap {separator : String} {c : Char} {w : List Char} (hc : EndsToken c)
    (h : separator.toList = c :: w) (as : List String) :
    ∀ d ∈ (as.flatMap fun a ↦ separator.toList ++ a.toList).head?, EndsToken d := by
  cases as with
  | nil => exact nofun
  | cons a as =>
    rw [h]
    exact fun d hd ↦ Option.some.inj hd ▸ hc

theorem endsToken_colons (as : List String) :
    ∀ d ∈ (as.flatMap fun a ↦ "::".toList ++ a.toList).head?, EndsToken d :=
  endsToken_flatMap (c := ':') (by decide) rfl as

theorem endsToken_comma (as : List String) :
    ∀ d ∈ (as.flatMap fun a ↦ ", ".toList ++ a.toList).head?, EndsToken d :=
  endsToken_flatMap (c := ',') (by decide) rfl as

theorem spelled_segmentTrees {segments : List String} (h : ∀ s ∈ segments, IsWord s) :
    Spelled (segmentTrees segments) (segments.flatMap fun s ↦ "::".toList ++ s.toList) := by
  induction segments with
  | nil => exact spelled_nil
  | cons s segments ih =>
    obtain ⟨hs, hsegments⟩ := List.forall_mem_cons.mp h
    have hword := (spelled_word isBlankGap_nil hs).append (ih hsegments) (endsToken_colons segments)
    have hcolon : IsPlainMark ':' := by decide
    exact (hword.mark isBlankGap_nil hcolon).mark isBlankGap_nil hcolon

theorem spelled_pathTrees {gap : List Lexeme} (hgap : IsBlankGap gap) {segments : List String}
    (h : ∀ s ∈ segments, IsWord s) (hne : segments ≠ []) :
    Spelled (pathTrees gap segments) (flatten gap ++ ("::".intercalate segments).toList) := by
  cases segments with
  | nil => exact absurd rfl hne
  | cons s segments =>
    obtain ⟨hs, hsegments⟩ := List.forall_mem_cons.mp h
    rw [toList_intercalate, ← List.append_assoc]
    exact (spelled_word hgap hs).append (spelled_segmentTrees hsegments) (endsToken_colons segments)

/-! ### What the token macro is called on -/

theorem measure_slash {rest : List Char} (h : ∀ d ∈ rest.head?, d ∉ ['/', '*']) :
    Lexeme.measure '/' rest = some (.mark, 1) := by
  have hhead {d : Char} (hd : d ∈ ['/', '*']) :
      ¬ (decide ('/' = '/') && decide (rest.head? = some d)) = true := by
    rw [Bool.and_eq_true, decide_eq_true_eq, decide_eq_true_eq]
    exact fun hrest ↦ h d hrest.2 hd
  rw [Lexeme.measure, if_neg (by decide), if_neg (hhead (by decide)), if_neg (hhead (by decide))]
  rfl

/-- The lexemes of operator characters. -/
def operatorLexemes (cs : List Char) : List Lexeme := cs.map fun c ↦ ⟨.mark, [c]⟩

theorem flatten_operatorLexemes (cs : List Char) : flatten (operatorLexemes cs) = cs := by
  induction cs with
  | nil => rfl
  | cons c cs ih => exact congrArg (c :: ·) ih

/-- Operator characters are cut off one by one in front of what ends tokens. -/
theorem run_operatorLexemes {cs : List Char} (hcs : ∀ c ∈ cs, c ∈ '$' :: operatorChars)
    (hcomment : IsUncommented cs) {d : Char} (hd : EndsToken d) (after : List Char) :
    Run (d :: after) (operatorLexemes cs) := by
  induction cs with
  | nil => exact .nil
  | cons c cs ih =>
    obtain ⟨hc, hcs⟩ := List.forall_mem_cons.mp hcs
    refine run_cons.mpr ⟨?_, ih hcs (IsUncommented.of_append (u := [c]) hcomment)⟩
    have hflat : flatten (List.map (fun c ↦ ⟨.mark, [c]⟩) cs) = cs := flatten_operatorLexemes cs
    rw [hflat]
    refine .cons (n := 1) ?_ rfl .nil
    by_cases hslash : c = '/'
    · subst hslash
      refine measure_slash fun x hx hbegins ↦ ?_
      cases cs with
      | nil => exact hd.2 (Option.some.inj hx ▸ hbegins)
      | cons y cs =>
        obtain rfl := Option.some.inj hx
        simp only [List.mem_cons, List.not_mem_nil, or_false] at hbegins
        rcases hbegins with rfl | rfl
        · exact hcomment.1 ⟨[], cs, rfl⟩
        · exact hcomment.2 ⟨[], cs, rfl⟩
    · have hall : ∀ c ∈ '$' :: operatorChars, c ≠ '/' → IsLoneMark c :=
        List.all_iff_forall_prop.mp (by decide)
      exact measure_of_isLoneMark (hall c hc hslash) _

/-- The trees of operator characters. -/
theorem spelled_operator {cs : List Char} (hcs : ∀ c ∈ cs, c ∈ '$' :: operatorChars)
    (hcomment : IsUncommented cs) :
    Spelled (cs.map fun c ↦ .leaf (.ofMark [] c)) cs := by
  have hlexemes : lexemesOf (tokensAll (cs.map fun c ↦
      Tree.leaf (.ofMark [] c))) = operatorLexemes cs := by
    clear hcs hcomment
    induction cs with
    | nil => rfl
    | cons c cs ih =>
      rw [List.map_cons, tokensAll, Tree.tokens, List.singleton_append, lexemesOf_cons, ih,
        lexeme_ofMark]
      rfl
  refine ⟨fun t ht ↦ ?_, ?_, fun d after hd ↦ ?_⟩
  · obtain ⟨c, hc, rfl⟩ := List.mem_map.mp ht
    have hall : ∀ c ∈ '$' :: operatorChars, isOpener (String.singleton c) = false ∧
        openerOf (String.singleton c) = none := List.all_iff_forall_prop.mp (by decide)
    exact ⟨.leaf fun _ ↦ hall c (hcs c hc),
      List.forall_mem_singleton.mpr (isProper_ofMark isBlankGap_nil c)⟩
  · rw [hlexemes, flatten_operatorLexemes]
  · rw [hlexemes]
    exact run_operatorLexemes hcs hcomment hd after

theorem spelled_spellingTrees {text : String} (h : IsSpelling text) :
    Spelled (spellingTrees text) text.toList := by
  rw [spellingTrees]
  rcases h with h | ⟨hchars, hcomment⟩
  · have hword := h
    obtain ⟨c, u, htext, hc, -⟩ := h
    rw [if_pos (by rw [htext]; exact hc)]
    exact spelled_word isBlankGap_nil hword
  · have hall : ∀ c ∈ '$' :: operatorChars, isIdentStart c = false :=
      List.all_iff_forall_prop.mp (by decide)
    rw [if_neg]
    · exact spelled_operator hchars hcomment
    · cases htext : text.toList with
      | nil => exact Bool.false_ne_true
      | cons c cs =>
        have hc := hchars c (by rw [htext]; exact List.mem_cons_self)
        rw [List.head?_cons, Option.any_some, hall c hc]
        exact Bool.false_ne_true

/-! ### Types -/

namespace TypeExpr

theorem endsToken_bracketed (shown : List String) :
    ∀ d ∈ (bracketed shown).toList.head?, EndsToken d := by
  rw [bracketed]
  split
  · exact nofun
  · rw [String.toList_append, String.toList_append]
    exact fun d hd ↦ Option.some.inj hd ▸ (by decide)

/-- Generic arguments, or nothing. -/
theorem spelled_angled {ts : List TypeExpr}
    (h : Spelled (treesAll [] ts) (", ".intercalate (describeAll ts)).toList) :
    Spelled (if ts.isEmpty then []
      else .leaf (.ofMark [] '<') :: (treesAll [] ts ++ [.leaf (.ofMark [] '>')]))
      (bracketed (describeAll ts)).toList := by
  cases ts with
  | nil => exact spelled_nil
  | cons t ts =>
    have hclose : Spelled [.leaf (.ofMark [] '>')] ['>'] :=
      spelled_nil.mark isBlankGap_nil (by decide)
    have hends : ∀ d ∈ ['>'].head?, EndsToken d := fun d hd ↦ Option.some.inj hd ▸ (by decide)
    have hshown : bracketed (describeAll (t :: ts)) =
        "<" ++ ", ".intercalate (describeAll (t :: ts)) ++ ">" := rfl
    rw [hshown, String.toList_append, String.toList_append]
    exact (h.append hclose hends).mark isBlankGap_nil (c := '<') (by decide)

/-- The call of the token macro. -/
theorem spelled_call {gap : List Lexeme} (hgap : IsBlankGap gap) {text : String}
    (h : IsSpelling text) : Spelled [.leaf (.ofWord gap "Token"), .leaf (.ofMark [] '!'),
      .group (.ofMark [] '[') (spellingTrees text) (.ofMark [] ']')]
      (flatten gap ++ ("Token".toList ++ "![".toList ++ text.toList ++ "]".toList)) := by
  have hbrackets := (spelled_spellingTrees h).group isBlankGap_nil isBlankGap_nil (o := '[')
    (c := ']') (by decide)
  have hname : IsWord "Token" := isWord_of_all (by decide)
  have hbang : Spelled (.leaf (.ofMark [] '!') :: _) _ := hbrackets.mark isBlankGap_nil (by decide)
  rw [List.append_assoc, List.append_assoc]
  exact hbang.word hgap hname fun d hd ↦ Option.some.inj hd ▸ (by decide)

mutual
theorem spelled_trees (t : TypeExpr) (h : t.IsPlain) {gap : List Lexeme} (hgap : IsBlankGap gap) :
    Spelled (t.trees gap) (flatten gap ++ t.describe.toList) := by
  cases h with
  | @path segments arguments hpath harguments =>
    have hsegments := spelled_pathTrees hgap hpath.isWord hpath.ne_nil
    have hall := spelled_treesAll arguments harguments
    rw [trees, describe, String.toList_append, ← List.append_assoc]
    exact hsegments.append (spelled_angled hall) (endsToken_bracketed _)
  | @tuple elements hlength helements =>
    have hall := spelled_treesAll elements helements
    rw [trees, describe, String.toList_append, String.toList_append]
    exact hall.group hgap isBlankGap_nil (o := '(') (c := ')') (by decide)
  | @token text htext =>
    rw [trees, describe, String.toList_append, String.toList_append, String.toList_append]
    exact spelled_call hgap htext
theorem spelled_treesAll (ts : List TypeExpr) (h : ∀ t ∈ ts, t.IsPlain) :
    Spelled (treesAll [] ts) (", ".intercalate (describeAll ts)).toList := by
  cases ts with
  | nil => exact spelled_nil
  | cons t ts =>
    obtain ⟨ht, hts⟩ := List.forall_mem_cons.mp h
    rw [describeAll, toList_intercalate, treesAll]
    exact (spelled_trees t ht isBlankGap_nil).append (spelled_treesAfter ts hts)
      (endsToken_comma (describeAll ts))
theorem spelled_treesAfter (ts : List TypeExpr) (h : ∀ t ∈ ts, t.IsPlain) :
    Spelled (treesAfter ts) ((describeAll ts).flatMap fun s ↦ ", ".toList ++ s.toList) := by
  cases ts with
  | nil => exact spelled_nil
  | cons t ts =>
    obtain ⟨ht, hts⟩ := List.forall_mem_cons.mp h
    rw [describeAll, treesAfter, List.flatMap_cons]
    exact ((spelled_trees t ht isBlankGap_space).append (spelled_treesAfter ts hts)
      (endsToken_comma (describeAll ts))).mark isBlankGap_nil (c := ',') (by decide)
end

end TypeExpr
end Rust
end NodeSchema
