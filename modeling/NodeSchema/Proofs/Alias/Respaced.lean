import NodeSchema.Proofs.Alias.Renames
import NodeSchema.Proofs.Rust.Respaced
import NodeSchema.Rust.Grammar.File

/-!
# Names in respaced sources

The segments of a path and the names that an import renames are cut from source text, not read from
tokens.  What stands between the tokens leaves them as they are all the same, with two exceptions: a
comment next to the colons `::` of a path, and brackets in front of them.  Both become part of a
name (`names_of_commented`).
-/

set_option autoImplicit false

namespace NodeSchema
namespace Rust

open Alias (HasRenames RenameClause)

/-- **What stands between the tokens changes no names.**  A path is read with its names as segments,
and with the same segments however it is spaced; so are its arguments, apart from text that is kept
of them.  An import makes the same renames however its paths are spaced. -/
theorem names_of_respaced (names : List String) (text : String) (ns : List TypeNode)
    (n' : TypeNode) (rs : List RenameClause) (tree tree' : UseTree) :
    (IsPathText names text.toList → (TypeNode.path text ns).Respaced n' →
      ∃ args args', (TypeNode.path text ns).expr = .path names args ∧ n'.expr = .path names args' ∧
        TypeExpr.AlikeAll args args' ∧ ((∀ a ∈ args, a.IsNamed) → args' = args)) ∧
    (HasRenames tree rs → HasRenames tree' rs →
      Alias.renames tree = RenameClause.pairs (RenameClause.introducing rs) ∧
        Alias.renames tree' = Alias.renames tree) := by
  refine ⟨fun htext h ↦ ?_, fun htree htree' ↦ ?_⟩
  · have hexpr : (TypeNode.path text ns).expr = .path names (TypeNode.argumentExprs ns) := by
      rw [TypeNode.expr, segmentsOf_of_isPathText htext]
    have halike := h.alike
    rw [hexpr] at halike ⊢
    generalize n'.expr = t' at halike ⊢
    cases halike with
    | @path _ _ args' hargs =>
      exact ⟨_, args', rfl, rfl, hargs, hargs.eq_of_isNamed _⟩
  · have hrenames := Alias.renames_of_hasRenames htree
    exact ⟨hrenames, (Alias.renames_of_hasRenames htree').trans hrenames.symm⟩

/-- Two words with colons between them, and blanks around the colons. -/
theorem isPathText_pair {first second text : String} {back front : List Char}
    (hfirst : IsWord first) (hsecond : IsWord second)
    (hblank : ∀ c ∈ back ++ front, Text.isBlank c = true)
    (htext : text.toList = first.toList ++ back ++ ':' :: ':' :: (front ++ second.toList)) :
    IsPathText ([first] ++ [second]) text.toList := by
  obtain ⟨hback, hfront⟩ := List.forall_mem_append.mp hblank
  have hbefore : IsSpaced first (first.toList ++ back) :=
    @IsSpaced.mk first [] back nofun hfirst.isPathName hback
  have hbehind : IsSpaced second (front ++ second.toList) := by
    have hspaced := @IsSpaced.mk second front [] hfront hsecond.isPathName nofun
    rwa [List.append_nil] at hspaced
  rw [htext]
  exact .segment (.first hbefore) hbehind

/-- Blanks in the path of `a::B<C>` and a comment among its arguments, and a line feed in the path
of `use a::b as C`. -/
theorem names_of_respaced_inserted :
    (TypeNode.path "a ::\nB" [.comment "/*x*/", .path "C" []]).expr =
        (TypeNode.path "a::B" [.path "C" []]).expr ∧
      (TypeNode.path "a::B" [.path "C" []]).expr = .path ["a", "B"] [.path ["C"] []] ∧
      Alias.renames (.rename "a::\nb" "C") = Alias.renames (.rename "a::b" "C") ∧
      Alias.renames (.rename "a::b" "C") = [("C", "b")] := by
  have ha : IsWord "a" := isWord_of_all (by decide)
  have hB : IsWord "B" := isWord_of_all (by decide)
  have hb : IsWord "b" := isWord_of_all (by decide)
  have hC : IsWord "C" := isWord_of_all (by decide)
  have hargument : IsPathText ["C"] "C".toList := .first hC.isPathName.isSpaced
  have htext : IsPathText ["a", "B"] "a::B".toList :=
    @isPathText_pair "a" "B" "a::B" [] [] ha hB nofun (by decide)
  have hspace : Text.isBlank ' ' = true := by decide
  have hbreak : Text.isBlank '\n' = true := by decide
  have htext' : IsPathText ["a", "B"] "a ::\nB".toList :=
    @isPathText_pair "a" "B" "a ::\nB" [' '] ['\n'] ha hB (by simp [hspace, hbreak]) (by decide)
  have hrespaced : (TypeNode.path "a::B" [.path "C" []]).Respaced
      (.path "a ::\nB" [.comment "/*x*/", .path "C" []]) :=
    .path htext htext' (.insert (.cons (.path hargument hargument .nil) .nil))
  have hrename : HasRenames (.rename "a::b" "C") [⟨"b", "C"⟩] :=
    .rename "C" (@isPathText_pair "a" "b" "a::b" [] [] ha hb nofun (by decide))
  have hrename' : HasRenames (.rename "a::\nb" "C") [⟨"b", "C"⟩] :=
    .rename "C" (@isPathText_pair "a" "b" "a::\nb" [] ['\n'] ha hb (by simp [hbreak]) (by decide))
  obtain ⟨hpath, huse⟩ := names_of_respaced ["a", "B"] "a::B" [.path "C" []]
    (.path "a ::\nB" [.comment "/*x*/", .path "C" []]) [⟨"b", "C"⟩] (.rename "a::b" "C")
    (.rename "a::\nb" "C")
  obtain ⟨args, args', hexpr, hexpr', -, hargs⟩ := hpath htext hrespaced
  obtain ⟨hrenames, hsame⟩ := huse hrename hrename'
  have hread : (TypeNode.path "a::B" [.path "C" []]).expr = .path ["a", "B"] [.path ["C"] []] := by
    decide
  obtain rfl : args = [.path ["C"] []] := by
    injection hexpr.symm.trans hread
  have hnamed : ∀ a ∈ [TypeExpr.path ["C"] []], a.IsNamed :=
    List.forall_mem_singleton.mpr (.path nofun)
  rw [hargs hnamed] at hexpr'
  exact ⟨hexpr'.trans hexpr.symm, hread, hsame, hrenames.trans (by decide)⟩

/-- Next to colons a comment becomes part of a segment and of the name that is renamed, and so do
brackets in front of colons. -/
theorem names_of_commented :
    parseType "a::b" = .ok (.path ["a", "b"] []) ∧
    parseType "a::/*x*/b" = .ok (.path ["a", "/*x*/b"] []) ∧
    parseType "Vec<a::B>::C" = .ok (.path ["Vec<a", "B>", "C"] []) ∧
    (Source.ofString "src/lib.rs" "use a::/*x*/b as C;").items.map (List.map fun i ↦ i.item.body) =
      .ok [.use (.rename "a::/*x*/b" "C")] ∧
    Alias.renames (.rename "a::/*x*/b" "C") = [("C", "/*x*/b")] := by
  refine ⟨?_, ?_, ?_, ?_, ?_⟩ <;> decide +kernel

end Rust
end NodeSchema
