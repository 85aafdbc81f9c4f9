import NodeSchema.Declaration.Recognize
import NodeSchema.Proofs.Alike
import NodeSchema.Proofs.Rust.Cursor
import NodeSchema.Proofs.Rust.Snippet

/-!
# The same text in another place

A macro call may stand in another text, or in another place of its text: the same bytes, so that all
places in it move by the same distance (`Tree.moved`, `MacroCall.SameBytes`).  What is recognised in
the call is the same then (`Declaration.alike_recognize`): a recogniser looks at the tokens and
copies slices of the text into a snippet, and each slice that it copies from the one text is a slice
of the other.

The two runs go side by side.  `Cursor.Together` says what two cursors have in common that walk the
call in both of its places; each operation of a cursor keeps it.
-/

set_option autoImplicit false

namespace NodeSchema
namespace Rust

/-! ## Moving -/

/-- A token the given number of bytes further on. -/
def Token.moved (n : Nat) (t : Token) : Token := { t with start := n + t.start, stop := n + t.stop }

/-- A token lies within the first `n` bytes: it is not empty, it ends there, and if it is a word,
its text ends there too. -/
structure Token.IsWithin (n : Nat) (t : Token) : Prop where
  lt : t.start < t.stop
  le : t.stop ≤ n
  word : t.kind = .word → t.start + (Text.bytesOf t.text).length ≤ n

namespace Tree

mutual
/-- A tree the given number of bytes further on. -/
def moved (n : Nat) : Tree → Tree
  | .leaf t => .leaf (t.moved n)
  | .group o body c => .group (o.moved n) (movedAll n body) (c.moved n)
/-- Trees the given number of bytes further on. -/
def movedAll (n : Nat) : List Tree → List Tree
  | [] => []
  | t :: ts => moved n t :: movedAll n ts
end

theorem movedAll_eq_map (n : Nat) (ts : List Tree) : movedAll n ts = ts.map (moved n) := by
  induction ts with
  | nil => rfl
  | cons t ts ih => rw [movedAll, ih, List.map_cons]

/-- The tokens of a tree lie within the first `n` bytes. -/
inductive IsWithin (n : Nat) : Tree → Prop
  | leaf {t : Token} (h : t.IsWithin n) : IsWithin n (.leaf t)
  | group {o c : Token} {body : List Tree} (ho : o.IsWithin n) (hc : c.IsWithin n)
      (hbody : ∀ t ∈ body, IsWithin n t) : IsWithin n (.group o body c)

variable {n : Nat}

theorem opener?_moved (t : Tree) : (t.moved n).opener? = t.opener? := by
  cases t <;> rfl

theorem body_moved (t : Tree) : (t.moved n).body = t.body.map (moved n) := by
  cases t with
  | leaf t => rfl
  | group o body c => exact movedAll_eq_map n body

theorem start_moved (t : Tree) : (t.moved n).start = n + t.start := by
  cases t <;> rfl

theorem stop_moved (t : Tree) : (t.moved n).stop = n + t.stop := by
  cases t <;> rfl

mutual
theorem bare_moved (t : Tree) : (t.moved n).bare = t.bare := by
  cases t with
  | leaf t => rfl
  | group o body c =>
    rw [moved, bare, written_movedAll body, bare]
    rfl
theorem written_movedAll (ts : List Tree) : written (movedAll n ts) = written ts := by
  cases ts with
  | nil => rfl
  | cons t ts =>
    rw [movedAll, written, bare_moved t, written_movedAll ts, written]
    cases t <;> rfl
end

theorem text_moved (t : Tree) : (t.moved n).text = t.text := by
  rw [text, bare_moved, text]

mutual
theorem rendered_moved (t : Tree) : (t.moved n).rendered = t.rendered := by
  cases t with
  | leaf t => rfl
  | group o body c =>
    rw [moved, rendered, renderedAll_movedAll body, rendered]
    rfl
theorem renderedAll_movedAll (ts : List Tree) : renderedAll (movedAll n ts) = renderedAll ts := by
  cases ts with
  | nil => rfl
  | cons t ts =>
    rw [movedAll, renderedAll, rendered_moved t, renderedAll_movedAll ts, renderedAll]
end

theorem renderBody_moved (t : Tree) : (t.moved n).renderBody = t.renderBody := by
  rw [renderBody, body_moved, ← movedAll_eq_map, renderedAll_movedAll, renderBody]

theorem IsWithin.body {t : Tree} (h : t.IsWithin n) : ∀ u ∈ t.body, u.IsWithin n := by
  cases h with
  | leaf => exact fun _ hu ↦ absurd hu List.not_mem_nil
  | group _ _ hbody => exact hbody

theorem IsWithin.start_le {t : Tree} (h : t.IsWithin n) : t.start ≤ n := by
  cases h with
  | leaf h => exact Nat.le_trans (Nat.le_of_lt h.lt) h.le
  | group h => exact Nat.le_trans (Nat.le_of_lt h.lt) h.le

theorem IsWithin.stop_le {t : Tree} (h : t.IsWithin n) : t.stop ≤ n := by
  cases h with
  | leaf h => exact h.le
  | group _ h => exact h.le

theorem IsWithin.stop_pos {t : Tree} (h : t.IsWithin n) : 0 < t.stop := by
  cases h with
  | leaf h => exact Nat.zero_lt_of_lt h.lt
  | group _ h => exact Nat.zero_lt_of_lt h.lt

end Tree

/-! ## Cursors side by side -/

section Together

variable {source source' : Source} {a b n : Nat}

/-- From `a` on in the one text and from `b` on in the other, the next `n` bytes are the same. -/
def Source.SameBytes (source source' : Source) (a b n : Nat) : Prop :=
  (source.bytes.drop a).take n = (source'.bytes.drop b).take n

theorem Source.SameBytes.slice (h : source.SameBytes source' a b n) {i j : Nat} (hj : j ≤ n) :
    source.slice (a + i) (a + j) = source'.slice (b + i) (b + j) := by
  have hshort (s : Source) (m : Nat) :
      s.slice (m + i) (m + j) = (((s.bytes.drop m).take n).take j).drop i := by
    rw [Source.slice, List.take_take, Nat.min_eq_left hj, ← List.drop_drop, List.drop_take,
      Nat.add_sub_cancel_left]
  rw [hshort, hshort, h]

/-- Two trees that are one tree in two places. -/
def Tree.Together (a b n : Nat) (t t' : Tree) : Prop :=
  ∃ u : Tree, u.IsWithin n ∧ t = u.moved a ∧ t' = u.moved b

/-- Two places that are one place in two texts. -/
def PlacesTogether (a b n : Nat) (i i' : Nat) : Prop := ∃ x ≤ n, i = a + x ∧ i' = b + x

namespace Cursor

/-- Two cursors that stand before the same token of a group in two places. -/
def Together (source source' : Source) (a b n : Nat) (c c' : Cursor) : Prop :=
  ∃ (ts : List Tree) (i k : Nat), (∀ t ∈ ts, t.IsWithin n) ∧ k ≤ n ∧
    c = ⟨source, ts.map (Tree.moved a), i, a + k⟩ ∧ c' = ⟨source', ts.map (Tree.moved b), i, b + k⟩

variable {c c' : Cursor}

theorem together_ofGroup (source source' : Source) {g g' : Tree} (h : Tree.Together a b n g g') :
    Together source source' a b n (ofGroup source g) (ofGroup source' g') := by
  obtain ⟨u, hu, rfl, rfl⟩ := h
  have hpos := hu.stop_pos
  have hle := hu.stop_le
  refine ⟨u.body, 0, u.stop - 1, hu.body, by omega, ?_, ?_⟩
  · rw [ofGroup, Tree.body_moved, Tree.stop_moved, Nat.add_sub_assoc hpos]
  · rw [ofGroup, Tree.body_moved, Tree.stop_moved, Nat.add_sub_assoc hpos]

theorem Together.advance (h : Together source source' a b n c c') (k : Nat) :
    Together source source' a b n (c.advance k) (c'.advance k) := by
  obtain ⟨ts, i, j, hts, hj, rfl, rfl⟩ := h
  exact ⟨ts, i + k, j, hts, hj, rfl, rfl⟩

theorem Together.peek (h : Together source source' a b n c c') (k : Nat) :
    (c.peek k = none ∧ c'.peek k = none) ∨
      ∃ t t', c.peek k = some t ∧ c'.peek k = some t' ∧ Tree.Together a b n t t' := by
  obtain ⟨ts, i, j, hts, hj, rfl, rfl⟩ := h
  simp only [Cursor.peek, List.getElem?_map]
  cases hget : ts[i + k]? with
  | none => exact .inl ⟨rfl, rfl⟩
  | some u => exact .inr ⟨_, _, rfl, rfl, u, hts u (List.mem_of_getElem? hget), rfl, rfl⟩

theorem Together.sees_eq (h : Together source source' a b n c c') (text : String) (k : Nat) :
    c.sees text k = c'.sees text k := by
  rw [sees, sees]
  rcases h.peek k with ⟨hc, hc'⟩ | ⟨t, t', hc, hc', u, -, rfl, rfl⟩
  · rw [hc, hc']
  · rw [hc, hc']
    dsimp only
    rw [Tree.text_moved, Tree.text_moved]

theorem Together.offset (h : Together source source' a b n c c') :
    PlacesTogether a b n c.offset c'.offset := by
  rw [Cursor.offset, Cursor.offset]
  rcases h.peek 0 with ⟨hc, hc'⟩ | ⟨t, t', hc, hc', u, hu, rfl, rfl⟩
  · rw [hc, hc']
    obtain ⟨ts, i, k, -, hk, rfl, rfl⟩ := h
    exact ⟨k, hk, rfl, rfl⟩
  · rw [hc, hc']
    exact ⟨u.start, hu.start_le, Tree.start_moved u, Tree.start_moved u⟩

theorem Together.atEnd_eq (h : Together source source' a b n c c') : c.atEnd = c'.atEnd := by
  obtain ⟨ts, i, k, -, -, rfl, rfl⟩ := h
  simp only [atEnd, List.length_map]

theorem Together.next (h : Together source source' a b n c c') :
    Alike (fun r r' ↦ Tree.Together a b n r.1 r'.1 ∧ Together source source' a b n r.2 r'.2)
      c.next c'.next := by
  rw [Cursor.next, Cursor.next]
  rcases h.peek 0 with ⟨hc, hc'⟩ | ⟨t, t', hc, hc', ht⟩
  · rw [hc, hc']
    exact .error
  · rw [hc, hc']
    exact .ok ⟨ht, h.advance 1⟩

theorem Together.expect (h : Together source source' a b n c c') (text : String) :
    Alike (fun r r' ↦ Together source source' a b n r.2 r'.2) (c.expect text) (c'.expect text) := by
  rw [Cursor.expect, Cursor.expect, h.sees_eq]
  split
  · exact h.next.mono fun _ _ hr ↦ hr.2
  · exact .error

/-- An identifier ends within the bytes that the two places have in common. -/
theorem Together.expectIdentifier (h : Together source source' a b n c c') :
    Alike (fun r r' ↦ r.1 = r'.1 ∧ Together source source' a b n r.2 r'.2 ∧
        ∃ x, c.offset = a + x ∧ c'.offset = b + x ∧ x + (Text.bytesOf r.1).length ≤ n)
      c.expectIdentifier c'.expectIdentifier := by
  rcases h.peek 0 with ⟨hc, hc'⟩ | ⟨t, t', hc, hc', u, hu, rfl, rfl⟩
  · rw [Cursor.expectIdentifier, Cursor.expectIdentifier, hc, hc']
    exact .error
  · have hoffset : c.offset = a + u.start := by
      rw [Cursor.offset, hc]
      exact Tree.start_moved u
    have hoffset' : c'.offset = b + u.start := by
      rw [Cursor.offset, hc']
      exact Tree.start_moved u
    rw [Cursor.expectIdentifier, Cursor.expectIdentifier, hc, hc', hoffset, hoffset']
    cases hu with
    | group => exact .error
    | @leaf t ht =>
      by_cases hident : t.isIdentifier = true
      · have hword : t.kind = .word := by
          rw [Token.isIdentifier, Bool.and_eq_true, Bool.and_eq_true] at hident
          exact of_decide_eq_true hident.1.1
        have htake (m : Nat) (d : Cursor) : (if (t.moved m).isIdentifier then
            Except.ok ((t.moved m).text, d.advance 1) else d.fail .expectedIdentifier) =
              .ok (t.text, d.advance 1) := if_pos hident
        show Alike _ (ite _ _ _) (ite _ _ _)
        rw [htake, htake]
        exact .ok ⟨rfl, h.advance 1, t.start, rfl, rfl, ht.word hword⟩
      · have hrefuse (m : Nat) (d : Cursor) : (if (t.moved m).isIdentifier then
            Except.ok ((t.moved m).text, d.advance 1) else d.fail .expectedIdentifier) =
              d.fail .expectedIdentifier := if_neg hident
        show Alike _ (ite _ _ _) (ite _ _ _)
        rw [hrefuse, hrefuse]
        exact .error

theorem Together.expectGroup (h : Together source source' a b n c c') (opener : String) :
    Alike (fun r r' ↦ Tree.Together a b n r.1 r'.1 ∧ Together source source' a b n r.2 r'.2)
      (c.expectGroup opener) (c'.expectGroup opener) := by
  rw [Cursor.expectGroup, Cursor.expectGroup]
  rcases h.peek 0 with ⟨hc, hc'⟩ | ⟨t, t', hc, hc', u, hu, rfl, rfl⟩
  · rw [hc, hc']
    exact .error
  · rw [hc, hc']
    dsimp only
    rw [Tree.opener?_moved, Tree.opener?_moved]
    split
    · exact .ok ⟨⟨u, hu, rfl, rfl⟩, h.advance 1⟩
    · exact .error

theorem Together.expectEnd (h : Together source source' a b n c c') :
    Alike (fun _ _ ↦ True) c.expectEnd c'.expectEnd := by
  rw [Cursor.expectEnd, Cursor.expectEnd, h.atEnd_eq]
  split
  · exact .ok trivial
  · exact .error

theorem Together.eatMarker (h : Together source source' a b n c c') (name : String) :
    (c.eatMarker name).1 = (c'.eatMarker name).1 ∧
      Together source source' a b n (c.eatMarker name).2 (c'.eatMarker name).2 := by
  rw [Cursor.eatMarker, Cursor.eatMarker, h.sees_eq]
  rcases h.peek 1 with ⟨hc, hc'⟩ | ⟨t, t', hc, hc', u, hu, rfl, rfl⟩
  · rw [hc, hc']
    exact ⟨rfl, h⟩
  · rw [hc, hc']
    cases u with
    | group => exact ⟨rfl, h⟩
    | leaf t =>
      cases hm : c'.sees "#" 0 && t.isIdentifier && t.text = name with
      | true =>
        have heat (m : Nat) (d : Cursor) : (if c'.sees "#" 0 && (t.moved m).isIdentifier &&
            (t.moved m).text = name then (true, d.advance 2) else (false, d)) =
              (true, d.advance 2) := if_pos hm
        show (ite _ _ _ : Bool × Cursor).1 = (ite _ _ _ : Bool × Cursor).1 ∧
          Together _ _ _ _ _ (ite _ _ _ : Bool × Cursor).2 (ite _ _ _ : Bool × Cursor).2
        rw [heat, heat]
        exact ⟨rfl, h.advance 2⟩
      | false =>
        have heat (m : Nat) (d : Cursor) : (if c'.sees "#" 0 && (t.moved m).isIdentifier &&
            (t.moved m).text = name then (true, d.advance 2) else (false, d)) =
              (false, d) := if_neg (by
                rw [Bool.not_eq_true]
                exact hm)
        show (ite _ _ _ : Bool × Cursor).1 = (ite _ _ _ : Bool × Cursor).1 ∧
          Together _ _ _ _ _ (ite _ _ _ : Bool × Cursor).2 (ite _ _ _ : Bool × Cursor).2
        rw [heat, heat]
        exact ⟨rfl, h⟩

/-- Attributes reach as far in every place. -/
theorem attributeRun_moved (m : Nat) (ts : List Tree) :
    attributeRun (ts.map (Tree.moved m)) =
      ((attributeRun ts).1, if (attributeRun ts).1 = 0 then 0 else m + (attributeRun ts).2) := by
  match ts with
  | [] | [_] => rfl
  | t :: g :: rest =>
    rw [List.map_cons, List.map_cons, attributeRun, attributeRun, Tree.text_moved,
      Tree.opener?_moved, attributeRun_moved m rest, Tree.stop_moved]
    split
    · dsimp only
      rw [if_neg (Nat.succ_ne_zero _)]
      split
      · rfl
      · rfl
    · rfl

theorem Together.skipAttributes (h : Together source source' a b n c c') :
    Option.Rel (fun r r' ↦ PlacesTogether a b n r.1 r'.1 ∧ PlacesTogether a b n r.2 r'.2)
        c.skipAttributes.1 c'.skipAttributes.1 ∧
      Together source source' a b n c.skipAttributes.2 c'.skipAttributes.2 := by
  have hoffset := h.offset
  obtain ⟨ts, i, k, hts, hk, rfl, rfl⟩ := h
  rw [Cursor.skipAttributes, Cursor.skipAttributes, Cursor.rest, Cursor.rest, ← List.map_drop,
    ← List.map_drop, attributeRun_moved, attributeRun_moved]
  have hle : (attributeRun (ts.drop i)).2 ≤ n :=
    attributeRun_le fun t ht ↦ (hts t (List.mem_of_mem_drop ht)).stop_le
  dsimp only
  split
  · exact ⟨.none, ts, i, k, hts, hk, rfl, rfl⟩
  · exact ⟨.some ⟨hoffset, _, hle, rfl, rfl⟩, ts, _, k, hts, hk, rfl, rfl⟩

end Cursor

/-! ## Snippets side by side -/

namespace Snippet

/-- Two snippets with the same text, of slices of the two texts. -/
structure Together (source source' : Source) (s s' : Snippet) : Prop where
  origin : s.origin = source
  origin' : s'.origin = source'
  bytes : s.bytes = s'.bytes

variable {s s' : Snippet}

theorem Together.write (h : Together source source' s s') (text : String) :
    Together source source' (s.write text) (s'.write text) :=
  ⟨h.origin, h.origin', by rw [bytes_write, bytes_write, h.bytes]⟩

theorem Together.copy (h : Together source source' s s') (hbytes : source.SameBytes source' a b n)
    {i i' j j' : Nat} (hi : PlacesTogether a b n i i') (hj : PlacesTogether a b n j j') :
    Together source source' (s.copy i j) (s'.copy i' j') := by
  obtain ⟨x, -, rfl, rfl⟩ := hi
  obtain ⟨y, hy, rfl, rfl⟩ := hj
  exact ⟨h.origin, h.origin', by
    rw [bytes_copy, bytes_copy, h.bytes, h.origin, h.origin', hbytes.slice hy]⟩

/-- A snippet is read by its text. -/
theorem Together.item [FileParser] (h : Together source source' s s') (kind : String) :
    Alike Eq (s.item kind) (s'.item kind) := by
  rw [Snippet.item, Snippet.item, h.bytes]
  cases FileParser.parse s'.bytes with
  | error e => exact .error
  | ok es =>
    dsimp only
    cases singleProblem (itemsOf es) kind s'.bytes.length with
    | some problem => exact .error
    | none =>
      cases itemsOf es with
      | nil => exact .error
      | cons first _ => exact .ok rfl

end Snippet
end Together
end Rust

/-! ## The recognisers -/

namespace Declaration

open Rust

section Recognisers

variable {source source' : Source} {a b n : Nat} {c c' : Cursor} {s s' : Snippet} {g g' : Tree}

theorem together_copyRest (h : Snippet.Together source source' s s')
    (hbytes : source.SameBytes source' a b n) (hc : Cursor.Together source source' a b n c c') :
    Snippet.Together source source' (copyRest s c) (copyRest s' c') := by
  rw [copyRest, copyRest, hc.atEnd_eq]
  split
  · exact h
  · refine h.copy hbytes hc.offset ?_
    obtain ⟨ts, i, k, -, hk, rfl, rfl⟩ := hc
    exact ⟨k, hk, rfl, rfl⟩

theorem together_copyAttributes (h : Snippet.Together source source' s s')
    (hbytes : source.SameBytes source' a b n) {range range' : Option (Nat × Nat)}
    (hrange : Option.Rel (fun r r' ↦ PlacesTogether a b n r.1 r'.1 ∧ PlacesTogether a b n r.2 r'.2)
      range range') (separator : String) :
    Snippet.Together source source' (copyAttributes s range separator)
      (copyAttributes s' range' separator) := by
  cases hrange with
  | none => exact h
  | some hplaces => exact (h.copy hbytes hplaces.1 hplaces.2).write separator

theorem together_empty (i i' : Nat) :
    Snippet.Together source source' (.empty source i) (.empty source' i') := ⟨rfl, rfl, rfl⟩

theorem alike_copyEntries (hbytes : source.SameBytes source' a b n) (fuel : Nat)
    (hc : Cursor.Together source source' a b n c c') (hs : Snippet.Together source source' s s') :
    Alike (Snippet.Together source source') (copyEntries fuel c s) (copyEntries fuel c' s') := by
  induction fuel generalizing c c' s s' with
  | zero => exact .ok hs
  | succ fuel ih =>
    have hlast {c c' : Cursor} {s s' : Snippet} (hc : Cursor.Together source source' a b n c c')
        (hs : Snippet.Together source source' s s') :
        Alike (Snippet.Together source source')
          (do copyEntries fuel (← c.expect ",").2 (s.write ",\n"))
          (do copyEntries fuel (← c'.expect ",").2 (s'.write ",\n")) :=
      (hc.expect ",").bind fun _ _ hc ↦ ih hc (hs.write ",\n")
    rw [copyEntries, copyEntries, hc.atEnd_eq]
    split
    · exact .ok hs
    · have hskip := hc.skipAttributes
      generalize c.skipAttributes = r, c'.skipAttributes = r' at hskip
      obtain ⟨range, c⟩ := r
      obtain ⟨range', c'⟩ := r'
      obtain ⟨hattributes, hc⟩ := hskip
      have hs := together_copyAttributes hs hbytes hattributes " "
      refine hc.expectIdentifier.bind fun r r' ⟨hname, hc', x, hx, hx', hle⟩ ↦ ?_
      obtain ⟨name, c₁⟩ := r
      obtain ⟨name', c₁'⟩ := r'
      obtain rfl : name = name' := hname
      have hplace : PlacesTogether a b n (c.offset + (Text.bytesOf name).length)
          (c'.offset + (Text.bytesOf name).length) :=
        ⟨_, hle, by rw [← Nat.add_assoc, ← hx], by rw [← Nat.add_assoc, ← hx']⟩
      have hs := hs.copy hbytes hc.offset hplace
      dsimp only at hc' hs ⊢
      -- The entry may wrap a path, which is copied with its parentheses.
      rcases hc'.peek 0 with ⟨hnone, hnone'⟩ | ⟨t, t', hsome, hsome', u, hu, rfl, rfl⟩
      · rw [hnone, hnone']
        exact hlast hc' hs
      · rw [hsome, hsome']
        dsimp only
        rw [Tree.opener?_moved, Tree.opener?_moved, Tree.renderBody_moved, Tree.renderBody_moved]
        split
        · split
          · refine hlast (hc'.advance 1) (hs.copy hbytes ?_ ?_)
            · exact ⟨u.start, hu.start_le, Tree.start_moved u, Tree.start_moved u⟩
            · exact ⟨u.stop, hu.stop_le, Tree.stop_moved u, Tree.stop_moved u⟩
          · exact .error
        · exact hlast hc' hs

variable [FileParser]

theorem alike_enumOf (h : Snippet.Together source source' s s') :
    Alike Eq (enumOf s) (enumOf s') := by
  rw [enumOf, enumOf]
  refine (h.item _).bind fun i _ hi ↦ ?_
  subst hi
  cases i.item.body with
  | enum variants => exact .of_eq (fun _ ↦ rfl) rfl
  | module _ | struct _ | use _ | macroCall _ | expression _ | typeAlias _ | plain _ => exact .error

theorem alike_recognizeStruct (hbytes : source.SameBytes source' a b n)
    (hg : Tree.Together a b n g g') :
    Alike Eq (recognizeStruct source g) (recognizeStruct source' g') := by
  have hc := (Cursor.together_ofGroup source source' hg).skipAttributes.2
  refine (hc.expect "pub").bind fun _ _ hc ↦ (hc.expect "struct").bind fun _ _ hc ↦ ?_
  refine hc.expectIdentifier.bind fun r r' ⟨hident, hc, _⟩ ↦ ?_
  obtain ⟨ident, c⟩ := r
  obtain ⟨ident', c'⟩ := r'
  obtain rfl : ident = ident' := hident
  obtain ⟨hmarker, hc⟩ := hc.eatMarker fullMarker
  dsimp only at hmarker ⊢
  rw [hmarker]
  have hs := together_copyRest ((together_empty (c.eatMarker fullMarker).2.offset
    (c'.eatMarker fullMarker).2.offset).write ("pub struct " ++ ident ++ " ")) hbytes hc
  refine (hs.item _).bind fun i _ hi ↦ ?_
  subst hi
  cases i.item.body with
  | struct body => exact .of_eq (fun _ ↦ rfl) rfl
  | module _ | enum _ | use _ | macroCall _ | expression _ | typeAlias _ | plain _ => exact .error

theorem alike_recognizeEnum (hbytes : source.SameBytes source' a b n)
    (hg : Tree.Together a b n g g') :
    Alike Eq (recognizeEnum source g) (recognizeEnum source' g') := by
  obtain ⟨hattributes, hc⟩ :=
    (Cursor.together_ofGroup source source' hg).skipAttributes
  refine (hc.expect "pub").bind fun _ _ hc ↦ (hc.expect "enum").bind fun _ _ hc ↦ ?_
  refine hc.expectIdentifier.bind fun r r' ⟨hident, hc, _⟩ ↦ ?_
  obtain ⟨ident, c⟩ := r
  obtain ⟨ident', c'⟩ := r'
  obtain rfl : ident = ident' := hident
  obtain ⟨hmarker, hc⟩ := hc.eatMarker noVisitMarker
  dsimp only at hmarker ⊢
  rw [hmarker]
  split
  · exact .ok rfl
  · have hs := together_copyAttributes (together_empty (c.eatMarker noVisitMarker).2.offset
      (c'.eatMarker noVisitMarker).2.offset) hbytes hattributes "\n"
    refine (alike_enumOf (together_copyRest (hs.write _) hbytes hc)).bind fun d _ hd ↦ ?_
    subst hd
    exact .ok rfl

theorem alike_recognizeEnumOfStructs (hbytes : source.SameBytes source' a b n)
    (hg : Tree.Together a b n g g') :
    Alike Eq (recognizeEnumOfStructs source g) (recognizeEnumOfStructs source' g') := by
  obtain ⟨hattributes, hc⟩ :=
    (Cursor.together_ofGroup source source' hg).skipAttributes
  refine (hc.expect "pub").bind fun _ _ hc ↦ (hc.expect "enum").bind fun _ _ hc ↦ ?_
  refine hc.expectIdentifier.bind fun r r' ⟨hident, hc, _⟩ ↦ ?_
  obtain ⟨ident, c⟩ := r
  obtain ⟨ident', c'⟩ := r'
  obtain rfl : ident = ident' := hident
  refine (hc.expectGroup "\x7b").bind fun r r' ⟨hbody, hc⟩ ↦ hc.expectEnd.bind fun _ _ _ ↦ ?_
  have hs := together_copyAttributes (together_empty r.1.start r'.1.start) hbytes hattributes "\n"
  have hentries := Cursor.together_ofGroup source source' hbody
  have hlength : (Cursor.ofGroup source r.1).tokens.length =
      (Cursor.ofGroup source' r'.1).tokens.length := by
    obtain ⟨ts, i, k, -, -, hr, hr'⟩ := hentries
    rw [hr, hr', List.length_map, List.length_map]
  dsimp only
  rw [hlength]
  refine (alike_copyEntries hbytes _ hentries (hs.write _)).bind fun s s' hs ↦ ?_
  exact alike_enumOf (hs.write _)

end Recognisers

end Declaration

namespace Rust

/-- Two calls of a macro are the same text in two places: the same bytes, with all places moved by
the same distance. -/
structure MacroCall.SameBytes (source source' : Source) (call call' : MacroCall) : Prop where
  name : call.name = call'.name
  arguments : ∃ a b n, source.SameBytes source' a b n ∧
    Tree.Together a b n call.arguments call'.arguments

end Rust

/-- **What is recognised in the call of a macro does not depend on where it stands.** -/
theorem Declaration.alike_recognize [Rust.FileParser] {source source' : Rust.Source}
    {call call' : Rust.MacroCall} (h : call.SameBytes source source' call') :
    Alike Eq (recognize source call) (recognize source' call') := by
  obtain ⟨a, b, n, hbytes, hg⟩ := h.arguments
  rw [recognize, recognize, h.name]
  cases Form.ofName? call'.name with
  | none => exact .ok rfl
  | some form =>
    cases form with
    | struct => exact (alike_recognizeStruct hbytes hg).map fun _ _ ↦ congrArg some
    | enum => exact alike_recognizeEnum hbytes hg
    | enumOfStructs => exact (alike_recognizeEnumOfStructs hbytes hg).map fun _ _ ↦ congrArg some

end NodeSchema
