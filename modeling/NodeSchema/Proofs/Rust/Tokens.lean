import NodeSchema.Rust.Tree

/-!
# The tokens of trees

The tokens of a tree are its own, with those of all trees between its delimiters (`Tree.tokens`).
What is known of the places of a tree is known of its tokens: a tree lies between two places if all
its tokens do (`Tree.LiesIn`), and a group is delimited if what it encloses lies between its
delimiters (`Tree.IsDelimited`).
-/

set_option autoImplicit false

namespace NodeSchema
namespace Rust

namespace Tree

mutual
/-- The tokens of a tree. -/
def tokens : Tree → List Token
  | .leaf t => [t]
  | .group o body c => o :: (tokensAll body ++ [c])
/-- The tokens of trees. -/
def tokensAll : List Tree → List Token
  | [] => []
  | t :: ts => tokens t ++ tokensAll ts
end

theorem tokensAll_append (ts us : List Tree) :
    tokensAll (ts ++ us) = tokensAll ts ++ tokensAll us := by
  induction ts with
  | nil => rfl
  | cons t ts ih => rw [List.cons_append, tokensAll, tokensAll, ih, List.append_assoc]

theorem mem_tokensAll {ts : List Tree} {t : Tree} (ht : t ∈ ts) {u : Token} (hu : u ∈ t.tokens) :
    u ∈ tokensAll ts := by
  induction ts with
  | nil => cases ht
  | cons t' ts ih =>
    rw [tokensAll]
    rcases List.mem_cons.mp ht with rfl | ht
    · exact List.mem_append_left _ hu
    · exact List.mem_append_right _ (ih ht)

theorem exists_mem_of_mem_tokensAll {ts : List Tree} {u : Token} (h : u ∈ tokensAll ts) :
    ∃ t ∈ ts, u ∈ t.tokens := by
  induction ts with
  | nil => cases h
  | cons t ts ih =>
    rcases List.mem_append.mp h with h | h
    · exact ⟨t, List.mem_cons_self, h⟩
    · obtain ⟨t', ht', hu⟩ := ih h
      exact ⟨t', List.mem_cons_of_mem _ ht', hu⟩

theorem first_mem_tokens (t : Tree) : t.first ∈ t.tokens := by
  cases t <;> exact List.mem_cons_self

end Tree

/-! ## Between two places -/

/-- The token begins and ends between two places.  So does the text of a word. -/
structure Token.LiesIn (low high : Nat) (t : Token) : Prop where
  low_le : low ≤ t.start
  start_lt : t.start < high
  low_lt : low < t.stop
  stop_le : t.stop ≤ high
  word_le : t.kind = .word → t.start + (Text.bytesOf t.text).length ≤ high

namespace Tree

/-- All tokens of the tree lie between two places. -/
def LiesIn (low high : Nat) (t : Tree) : Prop := ∀ u ∈ t.tokens, u.LiesIn low high

variable {low high : Nat} {t : Tree} {ts : List Tree}

namespace LiesIn

variable (h : t.LiesIn low high)
include h

theorem first : t.first.LiesIn low high := h t.first t.first_mem_tokens

theorem start_mem : low ≤ t.start ∧ t.start < high := ⟨h.first.low_le, h.first.start_lt⟩

theorem stop_mem : low < t.stop ∧ t.stop ≤ high := by
  cases t with
  | leaf t => exact ⟨h.first.low_lt, h.first.stop_le⟩
  | group o body c =>
    have hc := h c (by simp [tokens])
    exact ⟨hc.low_lt, hc.stop_le⟩

theorem body : ∀ u ∈ t.body, u.LiesIn low high := by
  cases t with
  | leaf t => exact nofun
  | group o body c =>
    intro u hu v hv
    exact h v (List.mem_cons_of_mem _ (List.mem_append_left _ (mem_tokensAll hu hv)))

end LiesIn

theorem liesIn_group {o c : Token} {body : List Tree} (ho : o.LiesIn low high)
    (hc : c.LiesIn low high) (hbody : ∀ t ∈ body, t.LiesIn low high) :
    (group o body c).LiesIn low high := by
  refine List.forall_mem_cons.mpr ⟨ho, List.forall_mem_append.mpr ⟨fun u hu ↦ ?_,
    List.forall_mem_singleton.mpr hc⟩⟩
  obtain ⟨t, ht, hu⟩ := exists_mem_of_mem_tokensAll hu
  exact hbody t ht u hu

/-- The delimiters stand one behind the other, the closing one takes one byte, and what they enclose
lies between them. -/
structure IsDelimited (o : Token) (body : List Tree) (c : Token) : Prop where
  start_lt : o.start < o.stop
  stop_le : o.stop ≤ c.start
  stop_eq : c.stop = c.start + 1
  body : ∀ t ∈ body, t.LiesIn o.stop c.start

end Tree
end Rust
end NodeSchema
