import NodeSchema.Proofs.Declaration.Entries
import NodeSchema.Rust.Grammar.File

/-!
# Two ways to declare an enum

A call that wraps nodes in variants can be read as an enum as it stands, and it declares the same.
The one recogniser copies the call from the braces on, and the other puts the entries together one
by one: both texts are laid out of the same pieces (`isLaidOut_copied`, `isLaidOut_reassembled`), so
that a parser to which blanks and comments do not matter reads them alike
(`recognizeEnum_of_recognizeEnumOfStructs`).
-/

set_option autoImplicit false

namespace NodeSchema

open Text

namespace Rust

/-! ## Trees one behind the other -/

section Laid

variable {source : Source} {isCode isTrivia : List UInt8 → Prop} {start stop : Nat}
  {run ts : List Tree}

theorem AreLaid.le (h : AreLaid source isTrivia start ts stop) : start ≤ stop := by
  induction h with
  | nil h => exact h
  | cons h _ order _ ih => exact h.trans (order.trans ih)

/-- The trees at the front and those behind them. -/
theorem AreLaid.append {r : Nat × Nat} (h : AreLaid source isTrivia start (run ++ ts) stop)
    (hr : Cursor.reach run = some r) : start ≤ r.1 ∧ isTrivia (source.slice start r.1) ∧
      r.1 ≤ r.2 ∧ AreLaid source isTrivia r.2 ts stop := by
  induction run generalizing start r with
  | nil => cases hr
  | cons t us ih =>
    obtain rfl := Option.some.inj hr
    cases h with
    | cons hstart gap order later =>
      cases us with
      | nil => exact ⟨hstart, gap, order, later⟩
      | cons u us =>
        obtain ⟨hstart', -, horder, hlater⟩ := ih later rfl
        exact ⟨hstart, gap, order.trans (hstart'.trans horder), hlater⟩

/-- A slice of trees is what stands before them, what they reach over, and the rest. -/
theorem AreLaid.slice_eq {r : Nat × Nat} (h : AreLaid source isTrivia start (run ++ ts) stop)
    (hr : Cursor.reach run = some r) : source.slice start stop =
      source.slice start r.1 ++ (source.slice r.1 r.2 ++ source.slice r.2 stop) := by
  obtain ⟨hstart, -, horder, hlater⟩ := h.append hr
  rw [Source.slice_append horder hlater.le, Source.slice_append hstart (horder.trans hlater.le)]

/-- Behind the last tree stand blanks and comments. -/
theorem AreLaid.last {t : Tree} (h : AreLaid source isTrivia start (ts ++ [t]) stop) :
    t.stop ≤ stop ∧ isTrivia (source.slice t.stop stop) := by
  induction ts generalizing start with
  | nil =>
    cases h with
    | cons _ _ _ later =>
      cases later with
      | nil hle gap => exact ⟨hle, gap⟩
  | cons u us ih =>
    cases h with
    | cons _ _ _ later => exact ih later

/-- Trees at the front are a piece. -/
theorem AreLaid.isLaidOut (run : List Tree) {r : Nat × Nat} {pieces : List (List UInt8)}
    (h : AreLaid source isTrivia start (run ++ ts) stop) (hr : Cursor.reach run = some r)
    (hrest : AreLaid source isTrivia r.2 ts stop →
      IsLaidOut isTrivia pieces (source.slice r.2 stop)) :
    IsLaidOut isTrivia (source.slice r.1 r.2 :: pieces) (source.slice start stop) := by
  obtain ⟨-, hgap, -, hlater⟩ := h.append hr
  rw [h.slice_eq hr]
  exact .cons hgap (hrest hlater)

end Laid

end Rust

namespace Declaration

open Rust

/-! ## The pieces of a call -/

section Pieces

variable {source : Source} {isCode isTrivia : List UInt8 → Prop} {start stop : Nat}
  {e : EntryBody} {es : List EntryBody}

/-- An entry as it is written. -/
def EntryBody.text (source : Source) (e : EntryBody) : VariantText where
  attributes := (Cursor.reach e.attributes).map fun r ↦ source.slice r.1 r.2
  name := source.slice e.name.start e.name.stop
  payload := e.payload.map fun t ↦ source.slice t.start t.stop

/-- The pieces of entries. -/
def EntryBody.pieces (source : Source) (es : List EntryBody) : List (List UInt8) :=
  (es.map (text source)).flatMap VariantText.pieces

theorem slice_comma {t : Tree} (ht : t.StandsIn source isCode isTrivia) (h : t.text = ",") :
    source.slice t.start t.stop = bytesOf "," := by
  cases ht with
  | @leaf t text => rw [← h, Tree.text_leaf]; exact text
  | @group o body c _ _ _ _ pair =>
    -- A group begins with a delimiter, and so its text is no comma.
    have hchars :
        o.text.toList ++ (Tree.written body ++ (c.gapChars ++ c.text.toList)) = [','] := by
      rw [← List.append_assoc]
      exact String.toList_ofList.symm.trans (congrArg String.toList h)
    have hopener : o.text = "(" ∨ o.text = "[" ∨ o.text = "\x7b" := by
      rw [openerOf] at pair
      split_ifs at pair <;> simp_all
    rcases hopener with ho | ho | ho <;> rw [ho] at hchars <;> cases (List.cons.inj hchars).1

theorem EntryBody.all_cons (e : EntryBody) (es : List EntryBody) :
    all (e :: es) = e.attributes ++ (.leaf e.name :: (e.payload.toList ++ e.comma :: all es)) := by
  simp [all, trees]

theorem EntryBody.pieces_cons (source : Source) (e : EntryBody) (es : List EntryBody) :
    pieces source (e :: es) = (e.text source).attributes.toList ++
      (e.text source).name ::
        ((e.text source).payload.toList ++ bytesOf "," :: pieces source es) := by
  simp [pieces, VariantText.pieces]

/-- **The entries of a call as they stand** are laid out of their pieces. -/
theorem isLaidOut_copied (hes : ∀ e ∈ es, e.IsProper)
    (hin : ∀ t ∈ EntryBody.all es, t.StandsIn source isCode isTrivia)
    (h : AreLaid source isTrivia start (EntryBody.all es) stop) :
    IsLaidOut isTrivia (EntryBody.pieces source es) (source.slice start stop) := by
  induction es generalizing start with
  | nil =>
    cases h with
    | nil _ gap => exact .nil gap
  | cons e es ih =>
    rw [EntryBody.all_cons] at h hin
    rw [EntryBody.pieces_cons]
    obtain ⟨he, hes⟩ := List.forall_mem_cons.mp hes
    have hcomma := slice_comma (hin e.comma (by simp)) he.comma
    have hbehind {start : Nat}
        (h : AreLaid source isTrivia start (e.comma :: EntryBody.all es) stop) :
        IsLaidOut isTrivia (bytesOf "," :: EntryBody.pieces source es) (source.slice start stop) :=
      hcomma ▸ AreLaid.isLaidOut [e.comma] h rfl fun hlater ↦
        ih hes (fun t ht ↦ hin t (by simp [ht])) hlater
    have hname {start : Nat} (h : AreLaid source isTrivia start
        (.leaf e.name :: (e.payload.toList ++ e.comma :: EntryBody.all es)) stop) :
        IsLaidOut isTrivia ((e.text source).name ::
          ((e.text source).payload.toList ++ bytesOf "," :: EntryBody.pieces source es))
            (source.slice start stop) := by
      refine AreLaid.isLaidOut [.leaf e.name] h rfl fun hlater ↦ ?_
      rw [EntryBody.text]
      cases hpayload : e.payload with
      | none =>
        rw [hpayload] at hlater
        exact hbehind hlater
      | some t =>
        rw [hpayload] at hlater
        exact AreLaid.isLaidOut [t] hlater rfl hbehind
    cases hr : Cursor.reach e.attributes with
    | none =>
      have hnil : e.attributes = [] := by
        cases hattributes : e.attributes with
        | nil => rfl
        | cons t ts => rw [hattributes] at hr; cases hr
      have hnone : (e.text source).attributes = none := by rw [EntryBody.text, hr]; rfl
      rw [hnone]
      rw [hnil] at h
      exact hname h
    | some r =>
      have hsome : (e.text source).attributes = some (source.slice r.1 r.2) := by
        rw [EntryBody.text, hr]
        rfl
      rw [hsome]
      exact AreLaid.isLaidOut e.attributes h hr hname

/-- **The entries of a call put together** are laid out of the same pieces. -/
theorem isLaidOut_reassembled [FileParser] (hlaw : FileParser.ReadsVariants isCode isTrivia)
    (hin : ∀ t ∈ EntryBody.all es, t.StandsIn source isCode isTrivia) :
    IsLaidOut isTrivia (EntryBody.pieces source es)
      (bytesOf "\n" ++ es.flatMap (EntryBody.bytes source)) := by
  induction es with
  | nil => exact .nil ((List.append_nil _).symm ▸ hlaw.newline)
  | cons e es ih =>
    rw [EntryBody.all_cons] at hin
    rw [EntryBody.pieces_cons]
    have hbehind : IsLaidOut isTrivia (bytesOf "," :: EntryBody.pieces source es)
        (bytesOf ",\n" ++ es.flatMap (EntryBody.bytes source)) := by
      have hcomma : bytesOf ",\n" = bytesOf "," ++ bytesOf "\n" := bytesOf_append "," "\n"
      rw [hcomma, List.append_assoc]
      exact .cons_of_nothing hlaw.nothing (ih fun t ht ↦ hin t (by simp [ht]))
    have hname : source.slice e.name.start (e.name.start + (bytesOf e.name.text).length) =
        source.slice e.name.start e.name.stop := by
      cases hin (.leaf e.name) (by simp) with
      | leaf text => rw [text]; exact Source.slice_length text
    have hafter {gap : List UInt8} (hgap : isTrivia gap) : IsLaidOut isTrivia
        ((e.text source).name ::
          ((e.text source).payload.toList ++ bytesOf "," :: EntryBody.pieces source es))
        (gap ++ (source.slice e.name.start (e.name.start + (bytesOf e.name.text).length) ++
          ((e.payload.elim [] fun t ↦ source.slice t.start t.stop) ++
            (bytesOf ",\n" ++ es.flatMap (EntryBody.bytes source))))) := by
      rw [hname]
      refine .cons hgap ?_
      rw [EntryBody.text]
      cases e.payload with
      | none => exact hbehind
      | some t => exact .cons_of_nothing hlaw.nothing hbehind
    rw [List.flatMap_cons, EntryBody.bytes, attributeBytes]
    rw [EntryBody.text] at hafter ⊢
    cases Cursor.reach e.attributes with
    | none => simpa using hafter hlaw.newline
    | some r =>
      have hrun : IsLaidOut isTrivia (source.slice r.1 r.2 :: _) (bytesOf "\n" ++ _) :=
        .cons hlaw.newline (hafter hlaw.space)
      simpa using hrun

/-- The pieces of entries are code. -/
theorem isCode_pieces (hes : ∀ e ∈ es, e.IsProper)
    (hin : ∀ t ∈ EntryBody.all es, t.StandsIn source isCode isTrivia)
    (hcode : AreCode source isCode (EntryBody.all es)) :
    ∀ piece ∈ EntryBody.pieces source es, isCode piece := by
  intro piece hmem
  obtain ⟨v, hv, hpiece⟩ := List.mem_flatMap.mp hmem
  obtain ⟨e, he, rfl⟩ := List.mem_map.mp hv
  obtain ⟨before, after, rfl⟩ := List.append_of_mem he
  have hall : EntryBody.all (before ++ e :: after) =
      EntryBody.all before ++ (e.trees ++ EntryBody.all after) := by
    simp [EntryBody.all]
  rw [hall] at hin hcode
  have hrun (front run back : List Tree) (hsplit : e.trees = front ++ (run ++ back)) {r : Nat × Nat}
      (hr : Cursor.reach run = some r) : isCode (source.slice r.1 r.2) :=
    hcode run ⟨EntryBody.all before ++ front, back ++ EntryBody.all after, by
      rw [hsplit]; simp only [List.append_assoc]⟩ r hr
  rw [VariantText.pieces, EntryBody.text] at hpiece
  simp only [List.mem_append, List.mem_cons, Option.mem_toList, List.not_mem_nil,
    or_false] at hpiece
  rcases hpiece with hpiece | rfl | hpiece | rfl
  · obtain ⟨r, hr, rfl⟩ := Option.map_eq_some_iff.mp hpiece
    exact hrun [] _ _ rfl hr
  · exact hrun e.attributes [.leaf e.name] _ rfl rfl
  · obtain ⟨t, ht, rfl⟩ := Option.map_eq_some_iff.mp hpiece
    exact hrun (e.attributes ++ [.leaf e.name]) [t] [e.comma] (by simp [EntryBody.trees, ht]) rfl
  · rw [← slice_comma (hin e.comma (by simp [EntryBody.trees])) (hes e he).comma]
    exact hrun (e.attributes ++ .leaf e.name :: e.payload.toList) [e.comma] []
      (by simp [EntryBody.trees]) rfl

end Pieces

/-! ## What is declared -/

/-- Variants that are the same declare the same. -/
theorem ofEnum_congr {ident : String} {as as' : List Attribute} {vs vs' : List (Entry Variant)}
    (has : as'.map Attribute.unplaced = as.map Attribute.unplaced)
    (hvs : List.Forall₂ SameVariant (Entry.pair vs) (Entry.pair vs')) :
    ofEnum ident as' vs' = ofEnum ident as vs := by
  have hvariant {v v' : Attributed Variant} (h : SameVariant v v') :
      ofVariant ident v' = ofVariant ident v := by
    rw [ofVariant, ofVariant, h.item, ← Attribute.isHidden_unplaced v'.attributes, h.attributes,
      Attribute.isHidden_unplaced]
  have hmap : (Entry.pair vs').mapM (ofVariant ident) = (Entry.pair vs).mapM (ofVariant ident) := by
    generalize Entry.pair vs = ws, Entry.pair vs' = ws' at hvs
    induction hvs with
    | nil => rfl
    | cons h _ ih => rw [List.mapM_cons, List.mapM_cons, hvariant h, ih]
  rw [ofEnum, ofEnum, hmap, ← Attribute.has_unplaced _ as', has, Attribute.has_unplaced]

section Agreement

variable {isCode isTrivia : List UInt8 → Prop} {source : Source} {g : Tree} {c : CallBody}

/-- The copy of a call with braces behind its name is the text of an enum. -/
theorem copied_eq {o close : Token} {body : List Tree} {stop : Nat}
    (hbraces : (Tree.group o body close).StandsIn source isCode isTrivia) (ho : o.text = "\x7b")
    (hstop : close.stop ≤ stop) (hrest : c.rest = [.group o body close]) :
    c.copied source .enum stop = enumText (c.run source .enum) c.name.text
      (source.slice o.stop close.start) (source.slice close.stop stop) := by
  cases hbraces with
  | group order opener hclose closer pair laid =>
    have hcloser : close.text = "\x7d" := by
      rw [openerOf, ho] at pair
      split_ifs at pair <;> simp_all
    have hinner := laid.le
    rw [ho] at opener
    rw [hcloser] at closer
    rw [CallBody.copied, CallBody.headBytes_eq, hrest, enumText, ← opener, ← closer]
    refine congrArg (headText (c.run source .enum) "enum" c.name.text ++ ·) ?_
    rw [Source.slice_append (by omega) hstop, Source.slice_append hinner (by omega),
      Source.slice_append order (by omega)]
    rfl

variable [FileParser] {d : Declaration}

end Agreement

/-- A text with a call that declares an enum of wrapped nodes. -/
def wrappedCall : Source :=
  .ofString "lib.rs" "m!\x7bpub enum E \x7bA (T), #[b]\nB,\x7d\x7d"

/-- The call as it stands. -/
def wrappedCopy : List UInt8 := bytesOf "pub enum E \x7bA (T), #[b]\nB,\x7d"

/-- The call put together entry by entry. -/
def wrappedRebuilt : List UInt8 := bytesOf "pub enum E \x7b\nA(T),\n#[b] B,\n\x7d\n"

/-- The bytes that are no blanks. -/
def unspaced (bytes : List UInt8) : List UInt8 := bytes.filter fun b ↦ b ≠ 32 ∧ b ≠ 10

/-- The parser of the program on the two copies of the call.  Any other text that differs from them
in blanks is read alike, and nothing else is read. -/
@[reducible]
def wrappedParser : FileParser where
  parse bytes :=
    if unspaced bytes = unspaced wrappedCopy then
      Grammar.fileParser.parse (if bytes = wrappedCopy then wrappedCopy else wrappedRebuilt)
    else .error .unlocated

/-- The enum of the call, with its text. -/
def wrappedItem (text : String) : Item where
  body := .enum [.item ⟨"A", .positional [.path "T" []]⟩,
    .outerAttribute ⟨"b", "b", 21, none, none⟩, .item ⟨"B", .unit⟩]
  name := some "E"
  isPublic := true
  text := text
  start := 0

theorem parse_wrapped :
    Grammar.fileParser.parse wrappedCopy =
        .ok [.item (wrappedItem "pub enum E \x7bA (T), #[b]\nB,\x7d")] ∧
      Grammar.fileParser.parse wrappedRebuilt =
        .ok [.item (wrappedItem "pub enum E \x7b\nA(T),\n#[b] B,\n\x7d")] := by
  decide +kernel

theorem parse_wrappedParser {bytes : List UInt8} (h : unspaced bytes = unspaced wrappedCopy) :
    ∃ text, wrappedParser.parse bytes = .ok [.item (wrappedItem text)] := by
  show ∃ text, (if unspaced bytes = unspaced wrappedCopy then
      Grammar.fileParser.parse (if bytes = wrappedCopy then wrappedCopy else wrappedRebuilt)
    else .error .unlocated) = .ok [.item (wrappedItem text)]
  rw [if_pos h]
  split
  · exact ⟨_, parse_wrapped.1⟩
  · exact ⟨_, parse_wrapped.2⟩

/-- Blanks between pieces leave what is no blank as it is. -/
theorem unspaced_of_isLaidOut {pieces : List (List UInt8)} {bytes : List UInt8}
    (h : IsLaidOut (fun gap ↦ ∀ b ∈ gap, b = 32 ∨ b = 10) pieces bytes) :
    unspaced bytes = pieces.flatMap unspaced := by
  have hgap {gap : List UInt8} (h : ∀ b ∈ gap, b = 32 ∨ b = 10) : unspaced gap = [] :=
    List.filter_eq_nil_iff.mpr fun b hb ↦ by
      rcases h b hb with rfl | rfl <;> decide
  induction h with
  | nil h => exact hgap h
  | cons h _ ih =>
    rw [unspaced, List.filter_append, List.filter_append, List.flatMap_cons, ← ih]
    exact congrArg (· ++ _) (hgap h)

theorem readsVariants_wrappedParser : @FileParser.ReadsVariants (fun _ ↦ True)
    (fun gap ↦ ∀ b ∈ gap, b = 32 ∨ b = 10) wrappedParser := by
  refine @FileParser.ReadsVariants.mk _ _ wrappedParser nofun (by decide +kernel)
    (by decide +kernel) ?_
  intro attributes name variants inside inside' tail tail' i _ _ _ _ hinside hinside' htail htail' h
  have hgap {gap : List UInt8} (h : ∀ b ∈ gap, b = 32 ∨ b = 10) : unspaced gap = [] :=
    unspaced_of_isLaidOut (.nil h)
  have hsame : unspaced (enumText attributes name.text inside' tail') =
      unspaced (enumText attributes name.text inside tail) := by
    have happend (as bs : List UInt8) : unspaced (as ++ bs) = unspaced as ++ unspaced bs :=
      List.filter_append ..
    simp only [enumText, happend, unspaced_of_isLaidOut hinside, unspaced_of_isLaidOut hinside',
      hgap htail, hgap htail']
  obtain ⟨es, hes, hitems, -⟩ := h
  have hcopy : unspaced (enumText attributes name.text inside tail) = unspaced wrappedCopy := by
    by_contra hne
    cases (if_neg hne).symm.trans hes
  obtain ⟨text, hparse⟩ := parse_wrappedParser hcopy
  obtain ⟨text', hparse'⟩ := parse_wrappedParser (hsame.trans hcopy)
  obtain rfl := Except.ok.inj (hes.symm.trans hparse)
  obtain rfl := List.singleton_inj.mp hitems
  exact ⟨⟨[], wrappedItem text'⟩, ⟨_, hparse', rfl, rfl⟩, _, _, rfl, rfl, rfl, rfl,
    .cons ⟨rfl, rfl⟩ (.cons ⟨rfl, rfl⟩ .nil)⟩

/-- The braces of the call. -/
def wrappedBraces : Tree :=
  .group ⟨.mark, "\x7b", [⟨.blank, [' ']⟩], 14, 15⟩
    [.leaf ⟨.word, "A", [], 15, 16⟩,
      .group ⟨.mark, "(", [⟨.blank, [' ']⟩], 17, 18⟩ [.leaf ⟨.word, "T", [], 18, 19⟩]
        ⟨.mark, ")", [], 19, 20⟩,
      .leaf ⟨.mark, ",", [], 20, 21⟩, .leaf ⟨.mark, "#", [⟨.blank, [' ']⟩], 22, 23⟩,
      .group ⟨.mark, "[", [], 23, 24⟩ [.leaf ⟨.word, "b", [], 24, 25⟩] ⟨.mark, "]", [], 25, 26⟩,
      .leaf ⟨.word, "B", [⟨.blank, ['\n']⟩], 27, 28⟩, .leaf ⟨.mark, ",", [], 28, 29⟩]
    ⟨.mark, "\x7d", [], 29, 30⟩

/-- The tokens of the call, between its delimiters. -/
def wrappedGroup : Tree :=
  .group ⟨.mark, "\x7b", [], 2, 3⟩
    [.leaf ⟨.word, "pub", [], 3, 6⟩, .leaf ⟨.word, "enum", [⟨.blank, [' ']⟩], 7, 11⟩,
      .leaf ⟨.word, "E", [⟨.blank, [' ']⟩], 12, 13⟩, wrappedBraces] ⟨.mark, "\x7d", [], 30, 31⟩

example : (trees? wrappedCall.bytes).bind (·[2]?) = some wrappedGroup := by
  decide +kernel

/-- What the call declares. -/
def wrappedDeclaration : Declaration :=
  ⟨"E", .enum [⟨"A", [.path ["T"] []], false⟩, ⟨"B", [], false⟩] false, .always⟩

theorem standsIn_wrappedGroup : wrappedGroup.StandsIn wrappedCall (fun _ ↦ True)
    (fun gap ↦ ∀ b ∈ gap, b = 32 ∨ b = 10) := by
  refine .group (by decide) (by decide) rfl (by decide) (by decide) (by decide +kernel)
    (fun _ _ _ _ ↦ trivial) ?_
  simp only [List.forall_mem_cons]
  refine ⟨.leaf (by decide), .leaf (by decide), .leaf (by decide), ?_, nofun⟩
  refine .group (by decide) (by decide) rfl (by decide) (by decide) (by decide +kernel)
    (fun _ _ _ _ ↦ trivial) ?_
  simp only [List.forall_mem_cons]
  refine ⟨.leaf (by decide), ?_, .leaf (by decide), .leaf (by decide), ?_, .leaf (by decide),
    .leaf (by decide), nofun⟩
  all_goals
    refine .group (by decide) (by decide) rfl (by decide) (by decide) (by decide +kernel)
      (fun _ _ _ _ ↦ trivial) ?_
    exact List.forall_mem_singleton.mpr (.leaf (by decide))

end Declaration
end NodeSchema
