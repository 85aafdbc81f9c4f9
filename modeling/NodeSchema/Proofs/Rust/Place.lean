import NodeSchema.Proofs.Rust.Tokens
import NodeSchema.Proofs.Rust.Within

/-!
# Where the tokens of a group lie

The tokens of a text lie one behind the other, and each takes some bytes (`Lexed.start_lt_stop`,
`Lexed.stop_le_start`).  Tokens that are joined to an operator reach from the first of them to the
last one (`Tree.liesIn_joined`).  So the groups of a text are delimited, as the parser of the
program gives them (`Tree.Within.isDelimited`).
-/

set_option autoImplicit false

namespace NodeSchema

/-! ## Bytes of characters -/

namespace Text

theorem width_pos_of_mem_decode {bs : List UInt8} {g : Glyph} (h : g ∈ decode bs) :
    0 < g.width := by
  have hafter (skip : Nat) (hskip : g ∈ decodeAfter skip bs) : 0 < g.width := by
    clear h
    induction bs generalizing skip with
    | nil => cases hskip
    | cons b bs ih =>
      cases skip with
      | succ skip => exact ih skip hskip
      | zero =>
        rcases List.mem_cons.mp hskip with rfl | hskip
        · rw [width_glyph]
          exact (readOne_width b bs).1
        · exact ih _ hskip
  exact hafter 0 h

end Text

namespace Rust

open Text Lexeme

theorem widthOf_le (gs : List Glyph) {m n : Nat} (h : m ≤ n) : widthOf m gs ≤ widthOf n gs := by
  rw [← Nat.add_sub_cancel' h, widthOf_add]
  exact Nat.le_add_right _ _

theorem widthOf_lt {gs : List Glyph} (hgs : ∀ g ∈ gs, 0 < g.width) {m n : Nat} (h : m < n)
    (hn : n ≤ gs.length) : widthOf m gs < widthOf n gs := by
  have hdrop : gs.drop m = gs[m] :: gs.drop (m + 1) := List.drop_eq_getElem_cons (by omega)
  have hone : widthOf 1 (gs.drop m) = gs[m].width := by
    rw [hdrop]
    rfl
  have hpos := hgs gs[m] (List.getElem_mem _)
  have hnext := widthOf_le gs (Nat.succ_le_of_lt h)
  rw [← Nat.add_one, widthOf_add, hone] at hnext
  omega

/-! ## Places of tokens -/

namespace Lexed

variable {bytes : List UInt8} {us vs ws : List Token} {x y : Token} {trail : List Lexeme}

/-- A token takes some bytes. -/
theorem start_lt_stop (h : Lexed bytes (us ++ x :: vs) trail) (hx : x.text ≠ "") :
    x.start < x.stop := by
  have hflat := flatten_scan h.scan
  have hlength := congrArg List.length hflat
  have htext : 0 < x.text.toList.length :=
    List.length_pos_iff.mpr fun hnil ↦ hx (String.toList_eq_nil_iff.mp hnil)
  rw [h.placed.start, h.placed.stop]
  refine widthOf_lt (fun g hg ↦ width_pos_of_mem_decode hg) ?_ ?_
  · rw [Token.lexemes, ← List.append_assoc, length_flatten_concat]
    exact Nat.add_lt_add_left (Nat.lt_add_of_pos_right htext) 0
  · rw [chars, List.length_map, lexemesOf_append, lexemesOf_cons] at hlength
    simp only [Token.lexemes, flatten_append, flatten_cons, List.length_append] at hlength ⊢
    have hnil : (flatten []).length = 0 := rfl
    omega

/-- A token lies behind those before it. -/
theorem stop_le_start (h : Lexed bytes (us ++ x :: (vs ++ y :: ws)) trail) : x.stop ≤ y.start := by
  have hplaced := h.placed
  rw [← List.cons_append, ← List.append_assoc] at hplaced
  rw [h.placed.stop, hplaced.start]
  refine widthOf_le _ ?_
  simp only [lexemesOf_append, lexemesOf_cons, Token.lexemes, flatten_append, flatten_cons,
    List.length_append]
  have hnil : (flatten []).length = 0 := rfl
  omega

/-- A token between two others takes some bytes between them. -/
theorem between (h : Lexed bytes (us ++ x :: (vs ++ y :: ws)) trail) {u : Token} (hu : u ∈ vs)
    (htext : u.text ≠ "") : x.stop ≤ u.start ∧ u.start < u.stop ∧ u.stop ≤ y.start := by
  obtain ⟨front, back, rfl⟩ := List.append_of_mem hu
  rw [List.append_assoc, List.cons_append] at h
  have hback : Lexed bytes ((us ++ x :: front) ++ u :: (back ++ y :: ws)) trail := by
    simpa only [List.append_assoc, List.cons_append] using h
  exact ⟨h.stop_le_start, hback.start_lt_stop htext, hback.stop_le_start⟩

end Lexed

namespace Tree

variable {low high : Nat} {t : Tree} {ts : List Tree}

/-! ## Joined operators -/

/-- A token that is no word lies between the places with those that follow it. -/
theorem liesIn_mergeTokens {m : Token} (hm : m.LiesIn low high) (hkind : m.kind ≠ .word)
    (hts : ∀ t ∈ ts, t.LiesIn low high) : (mergeTokens m ts).LiesIn low high := by
  induction ts generalizing m with
  | nil => exact hm
  | cons t ts ih =>
    obtain ⟨ht, hts⟩ := List.forall_mem_cons.mp hts
    have hstop := ht.stop_mem
    exact ih ⟨hm.low_le, hm.start_lt, hstop.1, hstop.2, fun hword ↦ absurd hword hkind⟩ hkind hts

/-- The operator that begins at a token. -/
theorem liesIn_operator {m : Token} (hm : m.LiesIn low high) (hts : ∀ t ∈ ts, t.LiesIn low high) :
    (mergeTokens m (ts.take (operatorTail (.leaf m) ts))).LiesIn low high := by
  by_cases hkind : m.kind = .word
  · have htail : operatorTail (.leaf m) ts = 0 := by
      rw [operatorTail, hkind]
      rfl
    rwa [htail]
  · exact liesIn_mergeTokens hm hkind fun t ht ↦ hts t (List.mem_of_mem_take ht)

theorem joinedAfter_group (o c : Token) (body ts : List Tree) :
    joinedAfter 0 (.group o body c :: ts) =
      .group o (joinedAfter 0 body) c :: joinedAfter 0 ts := by
  rw [joinedAfter, joined]
  rfl

mutual
theorem liesIn_joined : ∀ t : Tree, t.LiesIn low high → t.joined.LiesIn low high
  | .leaf t, h => h
  | .group o body c, h => by
    have hc := h c (by simp [tokens])
    exact liesIn_group h.first hc (liesIn_joinedAfter 0 body h.body)
theorem liesIn_joinedAfter : ∀ (skip : Nat) (ts : List Tree), (∀ t ∈ ts, t.LiesIn low high) →
    ∀ t ∈ joinedAfter skip ts, t.LiesIn low high
  | skip, [], _ => by cases skip <;> exact nofun
  | skip + 1, t :: ts, h => liesIn_joinedAfter skip ts (List.forall_mem_cons.mp h).2
  | 0, .leaf m :: ts, h => by
    obtain ⟨hm, hts⟩ := List.forall_mem_cons.mp h
    rw [joinedAfter]
    refine List.forall_mem_cons.mpr ⟨?_, liesIn_joinedAfter _ ts hts⟩
    exact List.forall_mem_singleton.mpr (liesIn_operator hm.first hts)
  | 0, .group o body c :: ts, h => by
    obtain ⟨hgroup, hts⟩ := List.forall_mem_cons.mp h
    rw [joinedAfter_group]
    refine List.forall_mem_cons.mpr ⟨?_, liesIn_joinedAfter 0 ts hts⟩
    exact liesIn_joined (.group o body c) hgroup
end

/-! ## Groups of a text -/

theorem text_ne_of_isMeasured {t : Token} (h : t.lexeme.IsMeasured) : t.text ≠ "" := by
  obtain ⟨c, u, -, -, htext, -⟩ := h
  intro hempty
  rw [Token.lexeme, hempty] at htext
  cases htext

theorem exists_isCloser {text opener : String} (h : openerOf text = some opener) :
    ∃ d, IsCloser d ∧ text.toList = [d] := by
  rw [openerOf] at h
  split at h
  · next htext => exact ⟨')', .inl rfl, congrArg String.toList htext⟩
  · split at h
    · next htext => exact ⟨']', .inr (.inl rfl), congrArg String.toList htext⟩
    · split at h
      · next htext => exact ⟨'\x7d', .inr (.inr rfl), congrArg String.toList htext⟩
      · cases h

/-- A closing bracket takes one byte. -/
theorem stop_eq_of_isCloser {source : Source} {o c : Token} {pre us post : List Token}
    {trail : List Lexeme} (h : Lexed source.bytes (pre ++ o :: (us ++ c :: post)) trail) {ch : Char}
    (hch : IsCloser ch) (htext : c.text.toList = [ch]) : c.stop = c.start + 1 := by
  have hlexed : Lexed source.bytes ((pre ++ o :: us) ++ c :: post) trail := by
    simpa only [List.append_assoc, List.cons_append] using h
  have hne : ∀ x ∈ c.text.toList, x ≠ replacement := by
    rw [htext, List.forall_mem_singleton]
    rcases hch with rfl | rfl | rfl <;> decide
  have hlength : (bytesOf c.text).length = 1 := by
    rw [bytesOf, htext]
    rcases hch with rfl | rfl | rfl <;> rfl
  rw [hlexed.stop_eq hne, hlength]

/-- **The groups of a text are delimited**, also with their operators joined. -/
theorem Within.isDelimited {source : Source} {o c : Token} {body : List Tree}
    (hts : trees? source.bytes = some ts) (h : Within (.group o body c) ts) :
    IsDelimited o (joinedAfter 0 body) c := by
  obtain ⟨hgrouped, pre, post, trail, hlexed⟩ := h.exists_lexed hts
  cases hgrouped with
  | group ho hc hopener hcloser hbody =>
    obtain ⟨ch, hch, htext⟩ := exists_isCloser hcloser
    refine ⟨?_, hlexed.stop_le_start, stop_eq_of_isCloser hlexed hch htext,
      liesIn_joinedAfter 0 body fun t ht u hu ↦ ?_⟩
    · exact hlexed.start_lt_stop fun hempty ↦ by
        rw [hempty] at hopener
        exact absurd hopener (by decide)
    · have hmem := mem_tokensAll ht hu
      have htext := text_ne_of_isMeasured (hlexed.isMeasured ho u hmem)
      have hword := hlexed.stop_of_word ho hmem
      obtain ⟨hfront, hwidth, hback⟩ := hlexed.between hmem htext
      exact ⟨hfront, by omega, by omega, hback, fun hkind ↦ by have := hword hkind; omega⟩

end Tree

end Rust
end NodeSchema
