import NodeSchema.Proofs.Rust.Grouping

/-!
# Groups of a source text

A group may stand anywhere among the trees of a text (`Tree.Within`): on the top level, or between
other delimiters.  Its tokens are tokens of the text (`Tree.Within.exists_lexed`).
-/

set_option autoImplicit false

namespace NodeSchema
namespace Rust

open Lexeme

namespace Tree

/-- The tree is one of the trees, or stands between the delimiters of one of them. -/
inductive Within (t : Tree) : List Tree → Prop
  | here {ts : List Tree} (h : t ∈ ts) : Within t ts
  | inside {u : Tree} {ts : List Tree} (hu : u ∈ ts) (h : Within t u.body) : Within t ts

variable {t : Tree} {ts : List Tree}

theorem exists_append_of_mem (h : t ∈ ts) :
    ∃ pre post, tokensAll ts = pre ++ (t.tokens ++ post) := by
  obtain ⟨us, vs, rfl⟩ := List.append_of_mem h
  exact ⟨tokensAll us, tokensAll vs, tokensAll_append us (t :: vs)⟩

theorem exists_tokens_of_body {u : Tree} (h : u.body ≠ []) :
    ∃ pre post, u.tokens = pre ++ (tokensAll u.body ++ post) := by
  cases u with
  | leaf => exact absurd rfl h
  | group o body c => exact ⟨[o], [c], rfl⟩

theorem Within.ne_nil (h : Within t ts) : ts ≠ [] := by
  cases h with
  | here h | inside h => exact List.ne_nil_of_mem h

/-- The tokens of a tree within others are among theirs. -/
theorem Within.exists_tokens (h : Within t ts) :
    ∃ pre post, tokensAll ts = pre ++ (t.tokens ++ post) := by
  induction h with
  | here h => exact exists_append_of_mem h
  | inside hu h ih =>
    obtain ⟨pre₁, post₁, h₁⟩ := exists_append_of_mem hu
    obtain ⟨pre₂, post₂, h₂⟩ := exists_tokens_of_body h.ne_nil
    obtain ⟨pre₃, post₃, h₃⟩ := ih
    refine ⟨pre₁ ++ (pre₂ ++ pre₃), post₃ ++ (post₂ ++ post₁), ?_⟩
    rw [h₁, h₂, h₃]
    simp only [List.append_assoc]

theorem Within.isGrouped (h : Within t ts) (hts : ∀ u ∈ ts, u.IsGrouped) : t.IsGrouped := by
  induction h with
  | here h => exact hts t h
  | @inside u ts hu h ih =>
    refine ih fun v hv ↦ ?_
    cases hts u hu with
    | leaf => cases hv
    | group _ _ _ _ hbody => exact hbody v hv

/-- **The tokens of a group are tokens of the text.** -/
theorem Within.exists_lexed {bytes : List UInt8} {o c : Token} {body : List Tree}
    (hts : trees? bytes = some ts) (h : Within (.group o body c) ts) :
    (Tree.group o body c).IsGrouped ∧ ∃ pre post trail,
      Lexed bytes (pre ++ o :: (tokensAll body ++ c :: post)) trail := by
  obtain ⟨htoks, hgrouped⟩ := exists_tokens_of_trees? hts
  obtain ⟨pre, post, htokens⟩ := h.exists_tokens
  obtain ⟨trail, hlexed⟩ := Rust.exists_lexed htoks
  refine ⟨h.isGrouped hgrouped, pre, post, trail, ?_⟩
  rw [htokens] at hlexed
  simpa only [tokens, List.cons_append, List.append_assoc, List.nil_append] using hlexed

end Tree

/-- The lexeme was cut off by its first character. -/
def Lexeme.IsMeasured (l : Lexeme) : Prop :=
  ∃ c u rest n, l.text = c :: u ∧ Lexeme.measure c rest = some (l.kind, n)

theorem Lexeme.Run.isMeasured {after : List Char} {ls : List Lexeme} (h : Run after ls) :
    ∀ l ∈ ls, l.IsMeasured := by
  induction h with
  | nil => exact nofun
  | cons hmeasure _ _ ih => exact List.forall_mem_cons.mpr ⟨⟨_, _, _, _, rfl, hmeasure⟩, ih⟩

/-- The tokens behind a mark were cut off by their first characters. -/
theorem Lexed.isMeasured {source : Source} {pre us vs : List Token} {trail : List Lexeme}
    {o : Token} (h : Lexed source.bytes (pre ++ o :: (us ++ vs)) trail) (ho : o.kind = .mark) :
    ∀ u ∈ us, u.lexeme.IsMeasured := by
  refine fun u hu ↦ (h.run ho).isMeasured _ (List.mem_append_left _ ?_)
  exact List.mem_flatMap.mpr ⟨u, List.mem_append_left _ hu,
    List.mem_append_right _ List.mem_cons_self⟩

/-- A word behind a mark takes the bytes that it is written in. -/
theorem Lexed.stop_of_word {source : Source} {pre us vs : List Token} {trail : List Lexeme}
    {o : Token} (h : Lexed source.bytes (pre ++ o :: (us ++ vs)) trail) (ho : o.kind = .mark)
    {u : Token} (hu : u ∈ us) (hkind : u.kind = .word) :
    u.stop = u.start + (Text.bytesOf u.text).length := by
  have hrun := h.run ho
  obtain ⟨us₁, us₂, rfl⟩ := List.append_of_mem hu
  have hlexemes : lexemesOf (us₁ ++ u :: us₂ ++ vs) ++ trail =
      (lexemesOf us₁ ++ u.gap) ++ ((u.lexeme :: lexemesOf us₂) ++ (lexemesOf vs ++ trail)) := by
    simp only [lexemesOf_append, lexemesOf_cons, List.append_assoc, List.cons_append]
  rw [hlexemes] at hrun
  have hword := (run_append.mp hrun).2
  rw [Token.lexeme, hkind] at hword
  have hlexed : Lexed source.bytes ((pre ++ o :: us₁) ++ u :: (us₂ ++ vs)) trail := by
    simpa only [List.append_assoc, List.cons_append] using h
  exact hlexed.stop_eq hword.ne_replacement_of_word

end Rust
end NodeSchema
