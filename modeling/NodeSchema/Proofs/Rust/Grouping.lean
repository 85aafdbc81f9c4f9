import NodeSchema.Proofs.Rust.Token
import NodeSchema.Proofs.Rust.Tokens

/-!
# Trees and their tokens

Grouping tokens by their delimiters loses nothing: the tokens of the trees are the tokens that were
grouped (`tokensAll_of_groupFrom`), and trees whose delimiters match are what their tokens are
grouped to (`groupFrom_tokensAll`).  Together with the lexemes of tokens this tells the trees of a
text that has been written: `trees?_of_scan`.
-/

set_option autoImplicit false

namespace NodeSchema
namespace Rust

namespace Tree

/-- The delimiters in the tree match. -/
inductive IsGrouped : Tree → Prop
  | leaf {t : Token} (h : t.kind = .mark → isOpener t.text = false ∧ openerOf t.text = none) :
      IsGrouped (.leaf t)
  | group {o c : Token} {body : List Tree} (ho : o.kind = .mark) (hc : c.kind = .mark)
      (hopener : isOpener o.text = true) (hcloser : openerOf c.text = some o.text)
      (hbody : ∀ t ∈ body, IsGrouped t) : IsGrouped (.group o body c)

end Tree

open Rust.Tree

theorem isOpener_of_openerOf {text opener : String} (h : openerOf text = some opener) :
    isOpener text = false := by
  rw [openerOf] at h
  split at h
  · next htext => subst htext; rfl
  · split at h
    · next htext => subst htext; rfl
    · split at h
      · next htext => subst htext; rfl
      · cases h

section Steps

variable (stack : List OpenGroup) (done : List Tree) (ts : List Token)

theorem groupFrom_opener {o : Token} (hkind : o.kind = .mark) (ho : isOpener o.text = true) :
    groupFrom stack done (o :: ts) = groupFrom (⟨o, done⟩ :: stack) [] ts := by
  cases stack <;> rw [groupFrom, hkind, ho] <;> rfl

theorem groupFrom_leaf {t : Token}
    (h : t.kind = .mark → isOpener t.text = false ∧ openerOf t.text = none) :
    groupFrom stack done (t :: ts) = groupFrom stack (.leaf t :: done) ts := by
  have hopener : ¬ (t.kind = .mark && isOpener t.text) = true := by
    rw [Bool.and_eq_true, decide_eq_true_eq]
    rintro ⟨hkind, ho⟩
    rw [(h hkind).1] at ho
    cases ho
  have hcloser : (if t.kind = .mark then openerOf t.text else none) = none := by
    split
    · next hkind => exact (h hkind).2
    · rfl
  cases stack <;> rw [groupFrom, if_neg hopener, hcloser]

theorem groupFrom_closer {c : Token} {g : OpenGroup} (hkind : c.kind = .mark)
    (hc : openerOf c.text = some g.opener.text) : groupFrom (g :: stack) done (c :: ts) =
      groupFrom stack (.group g.opener done.reverse c :: g.before) ts := by
  rw [groupFrom, isOpener_of_openerOf hc, Bool.and_false, if_neg Bool.false_ne_true,
    if_pos hkind, hc]
  exact if_pos rfl

theorem groupFrom_unopened {c : Token} {o : String} (hkind : c.kind = .mark)
    (hc : openerOf c.text = some o) : groupFrom [] done (c :: ts) = none := by
  rw [groupFrom, isOpener_of_openerOf hc, Bool.and_false, if_neg Bool.false_ne_true,
    if_pos hkind, hc]

theorem groupFrom_mismatch {c : Token} {g : OpenGroup} {o : String} (hkind : c.kind = .mark)
    (hc : openerOf c.text = some o) (hg : g.opener.text ≠ o) :
    groupFrom (g :: stack) done (c :: ts) = none := by
  rw [groupFrom, isOpener_of_openerOf hc, Bool.and_false, if_neg Bool.false_ne_true,
    if_pos hkind, hc]
  exact if_neg hg

end Steps

mutual
theorem groupFrom_tokens (t : Tree) (ht : t.IsGrouped) (stack : List OpenGroup) (done : List Tree)
    (more : List Token) :
    groupFrom stack done (t.tokens ++ more) = groupFrom stack (t :: done) more := by
  cases ht with
  | leaf h => exact groupFrom_leaf stack done more h
  | @group o c body ho hc hopener hcloser hbody =>
    rw [Tree.tokens, List.cons_append, groupFrom_opener _ _ _ ho hopener, List.append_assoc,
      groupFrom_tokensAll body hbody, List.append_nil, List.singleton_append,
      groupFrom_closer _ _ _ hc hcloser, List.reverse_reverse]
/-- **Trees whose delimiters match are what their tokens are grouped to.** -/
theorem groupFrom_tokensAll (ts : List Tree) (hts : ∀ t ∈ ts, t.IsGrouped) (stack : List OpenGroup)
    (done : List Tree) (more : List Token) :
    groupFrom stack done (tokensAll ts ++ more) = groupFrom stack (ts.reverse ++ done) more := by
  cases ts with
  | nil => rfl
  | cons t ts =>
    rw [tokensAll, List.append_assoc, groupFrom_tokens t (hts t List.mem_cons_self),
      groupFrom_tokensAll ts fun u hu ↦ hts u (List.mem_cons_of_mem t hu), List.reverse_cons,
      List.append_assoc]
    rfl
end

/-- The tokens that have been read when groups are open. -/
def tokensBefore : List OpenGroup → List Tree → List Token
  | [], done => tokensAll done.reverse
  | g :: stack, done => tokensBefore stack g.before ++ g.opener :: tokensAll done.reverse

theorem tokensBefore_cons (stack : List OpenGroup) (t : Tree) (done : List Tree) :
    tokensBefore stack (t :: done) = tokensBefore stack done ++ t.tokens := by
  have hlast : tokensAll [t] = t.tokens := List.append_nil _
  cases stack with
  | nil => rw [tokensBefore, tokensBefore, List.reverse_cons, tokensAll_append, hlast]
  | cons g stack =>
    rw [tokensBefore, tokensBefore, List.reverse_cons, tokensAll_append, hlast, List.append_assoc,
      List.cons_append]

/-- The delimiters that have been read match as far as they can. -/
def AreOpen (stack : List OpenGroup) (done : List Tree) : Prop :=
  (∀ t ∈ done, t.IsGrouped) ∧
    ∀ g ∈ stack, g.opener.kind = .mark ∧ isOpener g.opener.text = true ∧ ∀ t ∈ g.before, t.IsGrouped

theorem areOpen_nil : AreOpen [] [] :=
  ⟨fun _ ht ↦ absurd ht List.not_mem_nil, fun _ hg ↦ absurd hg List.not_mem_nil⟩

theorem tokensAll_of_groupFrom {stack : List OpenGroup} {done : List Tree} {toks : List Token}
    {ts : List Tree} (hopen : AreOpen stack done) (h : groupFrom stack done toks = some ts) :
    tokensAll ts = tokensBefore stack done ++ toks ∧ ∀ t ∈ ts, t.IsGrouped := by
  induction toks generalizing stack done with
  | nil =>
    cases stack with
    | cons => cases h
    | nil =>
      cases h
      exact ⟨(List.append_nil _).symm, fun t ht ↦ hopen.1 t (List.mem_reverse.mp ht)⟩
  | cons t toks ih =>
    obtain ⟨hdone, hstack⟩ := hopen
    by_cases hopener : t.kind = .mark ∧ isOpener t.text = true
    · rw [groupFrom_opener _ _ _ hopener.1 hopener.2] at h
      have hopen : AreOpen (⟨t, done⟩ :: stack) [] :=
        ⟨nofun, List.forall_mem_cons.mpr ⟨⟨hopener.1, hopener.2, hdone⟩, hstack⟩⟩
      obtain ⟨htokens, hts⟩ := ih hopen h
      refine ⟨htokens.trans ?_, hts⟩
      rw [tokensBefore, List.append_assoc]
      rfl
    by_cases hcloser : t.kind = .mark ∧ openerOf t.text ≠ none
    · obtain ⟨hkind, hcloser⟩ := hcloser
      obtain ⟨o, ho⟩ := Option.ne_none_iff_exists'.mp hcloser
      cases stack with
      | nil =>
        rw [groupFrom_unopened _ _ hkind ho] at h
        cases h
      | cons g stack =>
        obtain ⟨⟨hgkind, hgopener, hbefore⟩, hstack⟩ := List.forall_mem_cons.mp hstack
        by_cases hmatch : g.opener.text = o
        · subst hmatch
          rw [groupFrom_closer _ _ _ hkind ho] at h
          have hopen : AreOpen stack (.group g.opener done.reverse t :: g.before) :=
            ⟨List.forall_mem_cons.mpr ⟨.group hgkind hkind hgopener ho
              fun u hu ↦ hdone u (List.mem_reverse.mp hu), hbefore⟩, hstack⟩
          obtain ⟨htokens, hts⟩ := ih hopen h
          refine ⟨htokens.trans ?_, hts⟩
          rw [tokensBefore_cons, tokensBefore, Tree.tokens]
          simp only [List.append_assoc, List.cons_append, List.nil_append]
        · rw [groupFrom_mismatch _ _ _ hkind ho hmatch] at h
          cases h
    · have hleaf : t.kind = .mark → isOpener t.text = false ∧ openerOf t.text = none :=
        fun hkind ↦ ⟨Bool.eq_false_iff.mpr fun ho ↦ hopener ⟨hkind, ho⟩,
          Classical.byContradiction fun hc ↦ hcloser ⟨hkind, hc⟩⟩
      rw [groupFrom_leaf _ _ _ hleaf] at h
      have hopen : AreOpen stack (.leaf t :: done) :=
        ⟨List.forall_mem_cons.mpr ⟨.leaf hleaf, hdone⟩, hstack⟩
      obtain ⟨htokens, hts⟩ := ih hopen h
      refine ⟨htokens.trans ?_, hts⟩
      rw [tokensBefore_cons, List.append_assoc]
      rfl

/-- Tokens are grouped by how they are written. -/
theorem groupFrom_unplaced (stack : List OpenGroup) (done : List Tree) (toks : List Token) :
    groupFrom (stack.map fun g ↦ ⟨g.opener.unplaced, g.before.map unplaced⟩) (done.map unplaced)
      (toks.map Token.unplaced) = (groupFrom stack done toks).map (List.map unplaced) := by
  induction toks generalizing stack done with
  | nil =>
    cases stack with
    | nil =>
      rw [List.map_nil, List.map_nil, groupFrom, groupFrom, Option.map_some, List.map_reverse]
    | cons => rfl
  | cons t toks ih =>
    by_cases hopener : t.kind = .mark ∧ isOpener t.text = true
    · rw [List.map_cons, groupFrom_opener _ _ _ hopener.1 hopener.2,
        groupFrom_opener _ _ _ (o := t.unplaced) hopener.1 hopener.2]
      exact ih (⟨t, done⟩ :: stack) []
    by_cases hcloser : t.kind = .mark ∧ openerOf t.text ≠ none
    · obtain ⟨hkind, hcloser⟩ := hcloser
      obtain ⟨o, ho⟩ := Option.ne_none_iff_exists'.mp hcloser
      cases stack with
      | nil =>
        rw [List.map_cons, groupFrom_unopened _ _ hkind ho]
        exact groupFrom_unopened (c := t.unplaced) _ _ hkind ho
      | cons g stack =>
        by_cases hmatch : g.opener.text = o
        · subst hmatch
          rw [groupFrom_closer _ _ _ hkind ho, ← ih, List.map_cons, List.map_cons, List.map_cons,
            groupFrom_closer (c := t.unplaced) (g := ⟨g.opener.unplaced, g.before.map unplaced⟩)
              _ _ _ hkind ho, ← List.map_reverse, ← unplacedAll_eq_map done.reverse]
          rfl
        · rw [List.map_cons, groupFrom_mismatch _ _ _ hkind ho hmatch]
          exact groupFrom_mismatch (c := t.unplaced) _ _ _ hkind ho hmatch
    · have hleaf : t.kind = .mark → isOpener t.text = false ∧ openerOf t.text = none :=
        fun hkind ↦ ⟨Bool.eq_false_iff.mpr fun ho ↦ hopener ⟨hkind, ho⟩,
          Classical.byContradiction fun hc ↦ hcloser ⟨hkind, hc⟩⟩
      rw [List.map_cons, groupFrom_leaf _ _ _ hleaf, groupFrom_leaf _ _ _ (t := t.unplaced) hleaf]
      exact ih stack (.leaf t :: done)

/-! ## The tokens of a text -/

/-- **The trees of a text and its tokens.** -/
theorem exists_tokens_of_trees? {bytes : List UInt8} {ts : List Tree} (h : trees? bytes = some ts) :
    tokens? bytes = some (tokensAll ts) ∧ ∀ t ∈ ts, t.IsGrouped := by
  obtain ⟨toks, htoks, h⟩ := Option.bind_eq_some_iff.mp h
  obtain ⟨htokens, hts⟩ := tokensAll_of_groupFrom areOpen_nil h
  exact ⟨htoks.trans (congrArg some htokens.symm), hts⟩

/-- **A text that is written as the lexemes of trees has these trees**, apart from places. -/
theorem trees?_of_scan {bytes : List UInt8} {ts : List Tree} {trail : List Lexeme}
    (h : Lexeme.scan (Text.chars bytes) = some (lexemesOf (tokensAll ts) ++ trail))
    (hproper : ∀ t ∈ tokensAll ts, t.IsProper) (hgrouped : ∀ t ∈ ts, t.IsGrouped)
    (htrail : ∀ l ∈ trail, l.IsGap) :
    ∃ ts', trees? bytes = some ts' ∧ ts'.map unplaced = ts.map unplaced := by
  obtain ⟨toks, htoks, hunplaced⟩ := tokens?_of_scan h hproper htrail
  have hgroup := groupFrom_tokensAll ts hgrouped [] [] []
  rw [List.append_nil, List.append_nil, groupFrom, List.reverse_reverse] at hgroup
  have hboth := groupFrom_unplaced [] [] toks
  rw [hunplaced, groupFrom_unplaced [] [] (tokensAll ts), hgroup] at hboth
  cases hts : groupFrom [] [] toks with
  | none =>
    rw [hts] at hboth
    cases hboth
  | some ts' =>
    rw [hts] at hboth
    refine ⟨ts', ?_, (Option.some.inj hboth).symm⟩
    rw [trees?, htoks]
    exact hts

end Rust
end NodeSchema
