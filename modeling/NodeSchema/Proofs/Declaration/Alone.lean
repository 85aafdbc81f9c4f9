import NodeSchema.Proofs.Declaration.Entries
import NodeSchema.Rust.Grammar.File

/-!
# Calls that declare one node

A call that is recognised consists of a head, of one struct or enum, and of attributes that belong
to no item (`recognize_alone`).  Such attributes stand behind the item only where the rest of the
call is copied as it stands, since a file may end with attributes (`recognize_attributeBehind`).
Where the entries of an enum are put together one by one, the braces around them end the call.
-/

set_option autoImplicit false

namespace NodeSchema

open Text

namespace Rust

/-! ## One item among entries -/

namespace Entry

variable {α : Type}

/-- Entries with one item. -/
theorem exists_of_items {es : List (Entry α)} {x : α} (h : items es = [x]) :
    ∃ before behind, es = before ++ .item x :: behind ∧
      ∀ e ∈ before ++ behind, e.isItem = false := by
  have hitem {e : Entry α} (he : e.isItem = true) : ∃ x, e = .item x := by
    cases e with
    | item x => exact ⟨x, rfl⟩
    | comment | innerAttribute | outerAttribute => cases he
  obtain ⟨before, e, behind, rfl, hbefore, he, hbehind⟩ := List.filterMap_eq_cons_iff.mp h
  cases e with
  | item y =>
    obtain rfl := Option.some.inj he
    refine ⟨before, behind, rfl, List.forall_mem_append.mpr ⟨fun e he ↦ ?_, fun e he ↦ ?_⟩⟩
    · refine Bool.eq_false_iff.mpr fun h ↦ ?_
      obtain ⟨x, rfl⟩ := hitem h
      cases hbefore _ he
    · refine Bool.eq_false_iff.mpr fun h ↦ ?_
      obtain ⟨x, rfl⟩ := hitem h
      cases List.filterMap_eq_nil_iff.mp hbehind _ he
  | comment | innerAttribute | outerAttribute => cases he

/-- The first item of entries is found in one way only. -/
theorem eq_of_append_item {before before' behind behind' : List (Entry α)} {x x' : α}
    (hbefore : ∀ e ∈ before, e.isItem = false) (hbefore' : ∀ e ∈ before', e.isItem = false)
    (h : before ++ .item x :: behind = before' ++ .item x' :: behind') :
    before = before' ∧ x = x' ∧ behind = behind' := by
  induction before generalizing before' with
  | nil =>
    cases before' with
    | nil =>
      obtain ⟨hx, hbehind⟩ := List.cons.inj h
      exact ⟨rfl, Entry.item.inj hx, hbehind⟩
    | cons e es =>
      obtain ⟨rfl, -⟩ := List.cons.inj h
      cases hbefore' _ List.mem_cons_self
  | cons e es ih =>
    cases before' with
    | nil =>
      obtain ⟨rfl, -⟩ := List.cons.inj h
      cases hbefore _ List.mem_cons_self
    | cons e' es' =>
      obtain ⟨rfl, htail⟩ := List.cons.inj h
      obtain ⟨rfl, hrest⟩ := ih (List.forall_mem_cons.mp hbefore).2
        (List.forall_mem_cons.mp hbefore').2 htail
      exact ⟨rfl, hrest⟩

end Entry

/-- The place of an item in a text of entries. -/
theorem AreWritten.exists_item {start : Nat} {bytes : List UInt8}
    {before behind : List (Entry Item)} {i : Item}
    (h : AreWritten start bytes (before ++ .item i :: behind)) :
    ∃ front text back, bytes = front ++ (text ++ back) ∧ chars text = i.text.toList ∧
      i.start = start + front.length ∧
        AreWritten (start + front.length + text.length) back behind := by
  induction before generalizing start bytes with
  | nil =>
    cases h with
    | cons _ hitem hrest => exact ⟨_, _, _, rfl, hitem.1, hitem.2, hrest⟩
  | cons e es ih =>
    cases h with
    | @cons _ blank text later _ _ _ _ hrest =>
      obtain ⟨front, text', back, rfl, hchars, hstart, hback⟩ := ih hrest
      refine ⟨blank ++ (text ++ front), text', back, by simp, hchars, ?_, ?_⟩
      · simpa [Nat.add_assoc] using hstart
      · simpa [Nat.add_assoc] using hback

/-- A statement that consists of a macro call is handed on as nothing but a macro call. -/
theorem Item.unwrapped_of_kind {i : Item} {kind : ItemKind} (h : i.unwrapped.kind = kind)
    (hcall : kind ≠ .macroCall) : i.unwrapped = i := by
  have hhanded := i.handedOn_unwrapped
  generalize i.unwrapped = j at hhanded h
  cases hhanded with
  | call => exact absurd h.symm hcall
  | itself => rfl

end Rust

namespace Declaration

open Rust

/-! ## What is recognised -/

section Recognized

variable [FileParser] {source : Source} {isCode isTrivia : List UInt8 → Prop} {g : Tree}
  {form : Form} {c : CallBody} {d : Declaration}

/-- The call holds one declaration and nothing else but attributes behind it.  The text that the
call is copied to consists of the attributes of the declaration, of one item, which is a struct or
an enum as the form has it and has the name that stands in the call, and of comments, attributes and
blanks. -/
def CallBody.StandsAlone (source : Source) (form : Form) (c : CallBody) (close : Nat) : Prop :=
  ∃ (text back : List UInt8) (before behind : List (Entry Item)) (i : Item),
    c.IsCopy source form close (attributeBytes source (c.kept form) "\n" ++ (text ++ back)) ∧
      FileParser.parse (attributeBytes source (c.kept form) "\n" ++ (text ++ back)) =
        .ok (before ++ .item i :: behind) ∧
      (∀ e ∈ before ++ behind, e.isItem = false) ∧
      i.kind = form.kind ∧ i.name = some c.name.text ∧ chars text = i.text.toList ∧
      AreWritten ((attributeBytes source (c.kept form) "\n").length + text.length) back behind

theorem standsAlone_of_holdsOne (hcovers : FileParser.Covers)
    (hheads : FileParser.ReadsHeads isCode) (hg : g.StandsIn source isCode isTrivia)
    (hbody : g.body = c.trees) (hc : c.IsProper form) {close : Nat} {bytes : List UInt8}
    {i : Attributed Item} (hcopy : c.IsCopy source form close bytes)
    (hi : HoldsOne bytes form.kind i) :
    c.StandsAlone source form close ∧ i.item.name = some c.name.text := by
  obtain ⟨es, hes, hitems, hkind⟩ := hi
  have hx := items_itemsOf es
  rw [hitems] at hx
  obtain ⟨x, hx, hxi⟩ := List.map_eq_singleton_iff.mp hx.symm
  have hxkind : x.unwrapped.kind = form.kind := by rw [hxi, hkind]
  have hsame : x.unwrapped = x := Item.unwrapped_of_kind hxkind (by cases form <;> decide)
  rw [hsame] at hxi
  subst hxi
  obtain ⟨before, behind, rfl, hnone⟩ := Entry.exists_of_items hx
  obtain ⟨rest, hrest⟩ := hcopy.exists_eq
  obtain ⟨hrun, hname⟩ := CallBody.isCode form hg hbody
  obtain ⟨before', x', behind', heq, hnone', hxname, hxstart⟩ :=
    hheads _ _ rest _ hrun hc.name hname _ form.keyword_mem (hrest ▸ hes)
  obtain ⟨-, rfl, -⟩ := Entry.eq_of_append_item
    (List.forall_mem_append.mp hnone).1 hnone' heq
  obtain ⟨front, text, back, rfl, htext, hstart, hback⟩ := (hcovers hes).exists_item
  have hfront : front = attributeBytes source (c.kept form) "\n" := by
    rw [attributeBytes_eq]
    rw [headText, List.append_assoc] at hrest
    refine (List.append_inj hrest ?_).1
    rw [← hxstart, hstart, Nat.zero_add]
  subst hfront
  rw [Nat.zero_add] at hback
  exact ⟨⟨text, back, before, behind, i.item, hcopy, hes, hnone, hkind, hxname, htext, hback⟩,
    hxname⟩

end Recognized

/-- A text with a semicolon behind the item of a call, and with a call that holds one item. -/
def semicolonBehind : Source :=
  .ofString "lib.rs" "ast_struct!\x7bpub struct A;;\x7dast_struct!\x7bpub struct B;\x7d"

/-- What the first call is copied to. -/
def semicolonCopy : List UInt8 := bytesOf "pub struct A ;;"

/-- What the second call is copied to. -/
def unitCopy : List UInt8 := bytesOf "pub struct B ;"

/-- The parser of the program on the two copies; it reads nothing else. -/
@[reducible]
def copyParser : FileParser where
  parse bytes :=
    if bytes = semicolonCopy ∨ bytes = unitCopy then Grammar.fileParser.parse bytes
    else .error .unlocated

/-- The inside of a call of a struct that begins at an offset, up to the name. -/
def unitCall (start : Nat) (name : String) (rest : List Tree) : CallBody where
  attributes := []
  pub := .leaf ⟨.word, "pub", [], start, start + 3⟩
  keyword := .leaf ⟨.word, "struct", [⟨.blank, [' ']⟩], start + 4, start + 10⟩
  name := ⟨.word, name, [⟨.blank, [' ']⟩], start + 11, start + 12⟩
  marker := []
  rest := rest

/-- The inside of the first call. -/
def semicolonCall : CallBody :=
  unitCall 12 "A" [.leaf ⟨.mark, ";", [], 24, 25⟩, .leaf ⟨.mark, ";", [], 25, 26⟩]

/-- The inside of the second call. -/
def unitStructCall : CallBody := unitCall 39 "B" [.leaf ⟨.mark, ";", [], 51, 52⟩]

/-- A call with its braces. -/
def bracedCall (c : CallBody) (start stop : Nat) : Tree :=
  .group ⟨.mark, "\x7b", [], start, start + 1⟩ c.trees ⟨.mark, "\x7d", [], stop, stop + 1⟩

example :
    (trees? semicolonBehind.bytes).map (fun ts ↦ (ts[2]?, ts[5]?)) =
      some (some (bracedCall semicolonCall 11 26), some (bracedCall unitStructCall 38 52)) := by
  decide +kernel

/-- The item of a call. -/
def unitItem (name text : String) : Item := ⟨.struct .unit, some name, true, text, 0⟩

/-- The semicolon behind an item. -/
def semicolonItem : Item := ⟨.plain .empty, none, false, ";", 14⟩

theorem parse_semicolonCopy : Grammar.fileParser.parse semicolonCopy =
    .ok [.item (unitItem "A" "pub struct A ;"), .item semicolonItem] := by
  decide +kernel

theorem parse_unitCopy :
    Grammar.fileParser.parse unitCopy = .ok [.item (unitItem "B" "pub struct B ;")] := by
  decide +kernel

theorem parse_copyParser {bytes : List UInt8} {es : List (Entry Item)}
    (h : copyParser.parse bytes = .ok es) :
    bytes = semicolonCopy ∧ es = [.item (unitItem "A" "pub struct A ;"), .item semicolonItem] ∨
      bytes = unitCopy ∧ es = [.item (unitItem "B" "pub struct B ;")] := by
  change (if bytes = semicolonCopy ∨ bytes = unitCopy then Grammar.fileParser.parse bytes
    else .error .unlocated) = .ok es at h
  split at h
  · next hbytes =>
    rcases hbytes with rfl | rfl
    · exact .inl ⟨rfl, Except.ok.inj (h.symm.trans parse_semicolonCopy)⟩
    · exact .inr ⟨rfl, Except.ok.inj (h.symm.trans parse_unitCopy)⟩
  · cases h

theorem covers_copyParser : @FileParser.Covers copyParser := by
  intro bytes es h
  have hnil : IsBlank [] := fun c hc ↦ absurd hc List.not_mem_nil
  rcases parse_copyParser h with ⟨rfl, rfl⟩ | ⟨rfl, rfl⟩
  · have htext : semicolonCopy = [] ++ (bytesOf "pub struct A ;" ++ ([] ++ (bytesOf ";" ++ []))) :=
      by decide
    exact htext ▸ .cons hnil ⟨by decide, rfl⟩ (.cons hnil ⟨by decide, rfl⟩ (.nil hnil))
  · have htext : unitCopy = [] ++ (unitCopy ++ []) := (List.append_nil _).symm
    exact htext ▸ .cons hnil ⟨by decide, rfl⟩ (.nil hnil)

/-- The name at the front of a text that has one blank behind the name and no other. -/
theorem eq_of_append_blank {name rest later : List UInt8} {x : UInt8} (hx : x ≠ 32)
    (hlater : 32 ∉ later) (h : name ++ 32 :: rest = x :: 32 :: later) : name = [x] := by
  rcases name with - | ⟨a, - | ⟨b, name⟩⟩
  · exact absurd (List.cons.inj h).1.symm hx
  · rw [(List.cons.inj h).1]
  · obtain ⟨-, htail⟩ := List.cons.inj (List.cons.inj h).2
    exact absurd (htail ▸ List.mem_append_right name List.mem_cons_self) hlater

/-- The head of a copy that has one blank behind the name and no line break. -/
theorem head_of_copy (b : UInt8) (x : String) (later : List UInt8)
    {attributes : Option (List UInt8)} {keyword name : String} {rest copy : List UInt8}
    (hkeyword : keyword ∈ ["struct", "enum"])
    (hcopy : copy = bytesOf "pub struct " ++ b :: 32 :: later) (hbreak : 10 ∉ copy)
    (hlater : 32 ∉ later) (hb : b ≠ 32) (hx : bytesOf x = [b])
    (h : headText attributes keyword name ++ rest = copy) : attributes = none ∧ name = x := by
  cases attributes with
  | some run =>
    refine absurd ?_ hbreak
    rw [← h, headText]
    exact List.mem_append_left _ (List.mem_append_left _ (List.mem_append_right _ (by decide)))
  | none =>
    have hparts : headText none keyword name ++ rest =
        bytesOf ("pub " ++ keyword ++ " ") ++ (bytesOf name ++ 32 :: rest) := by
      have hblank : bytesOf " " = [32] := by decide
      rw [headText, bytesOf_append _ " ", bytesOf_append _ name, hblank]
      simp
    rw [hparts, hcopy] at h
    simp only [List.mem_cons, List.not_mem_nil, or_false] at hkeyword
    rcases hkeyword with rfl | rfl
    · have hstruct : bytesOf ("pub " ++ "struct" ++ " ") = bytesOf "pub struct " := by decide
      rw [hstruct] at h
      have hname := eq_of_append_blank hb hlater (List.append_cancel_left h)
      refine ⟨rfl, String.toList_inj.mp ?_⟩
      rw [← chars_bytesOf, ← chars_bytesOf, hname, hx]
    · have htake := congrArg (List.take 9) h
      rw [List.take_left' (by decide), List.take_append_of_le_length (by decide)] at htake
      exact absurd htake (by decide)

theorem readsHeads_copyParser : @FileParser.ReadsHeads (fun _ ↦ True) copyParser := by
  intro attributes name rest es _ _ _ keyword hkeyword h
  rcases parse_copyParser h with ⟨hcopy, rfl⟩ | ⟨hcopy, rfl⟩
  · obtain ⟨rfl, hname⟩ := head_of_copy 65 "A" [59, 59] hkeyword
      (by decide) (by decide) (by decide) (by decide) (by decide) hcopy
    exact ⟨[], _, _, rfl, nofun, congrArg some hname.symm, rfl⟩
  · obtain ⟨rfl, hname⟩ := head_of_copy 66 "B" [59] hkeyword
      (by decide) (by decide) (by decide) (by decide) (by decide) hcopy
    exact ⟨[], _, _, rfl, nofun, congrArg some hname.symm, rfl⟩

theorem standsIn_semicolonCall : (bracedCall semicolonCall 11 26).StandsIn semicolonBehind
    (fun _ ↦ True) (fun _ ↦ True) := by
  refine .group (by decide) (by decide) rfl (by decide) (by decide) (by decide)
    (fun _ _ _ _ ↦ trivial) ?_
  simp only [semicolonCall, unitCall, CallBody.trees, List.nil_append, List.forall_mem_cons]
  exact ⟨.leaf (by decide), .leaf (by decide), .leaf (by decide), .leaf (by decide),
    .leaf (by decide), List.forall_mem_nil _⟩

theorem standsIn_unitStructCall : (bracedCall unitStructCall 38 52).StandsIn semicolonBehind
    (fun _ ↦ True) (fun _ ↦ True) := by
  refine .group (by decide) (by decide) rfl (by decide) (by decide) (by decide)
    (fun _ _ _ _ ↦ trivial) ?_
  simp only [unitStructCall, unitCall, CallBody.trees, List.nil_append, List.forall_mem_cons]
  exact ⟨.leaf (by decide), .leaf (by decide), .leaf (by decide), .leaf (by decide),
    List.forall_mem_nil _⟩

theorem isProper_unitCall {start : Nat} {name : String} {t : Tree} {ts : List Tree}
    (hname : (⟨.word, name, [⟨.blank, [' ']⟩], start + 11, start + 12⟩ : Token).isIdentifier = true)
    (ht : t.text ≠ "#") : (unitCall start name (t :: ts)).IsProper .struct := by
  refine ⟨.nil, Tree.text_leaf _, Tree.text_leaf _, hname, .inl ⟨rfl, ?_⟩⟩
  rintro _ - ⟨_, _, _, heq, hhash, -⟩
  exact ht ((List.cons.inj heq).1 ▸ hhash)

/-- A text with an attribute behind the item of a call. -/
def attributeBehind : Source :=
  .ofString "lib.rs" "ast_struct!\x7bpub struct A\x7b\x7d #[x]\x7d"

/-- The inside of the call. -/
def attributeCall : CallBody :=
  unitCall 12 "A" [.group ⟨.mark, "\x7b", [], 24, 25⟩ [] ⟨.mark, "\x7d", [], 25, 26⟩,
    .leaf ⟨.mark, "#", [⟨.blank, [' ']⟩], 27, 28⟩,
    .group ⟨.mark, "[", [], 28, 29⟩ [.leaf ⟨.word, "x", [], 29, 30⟩] ⟨.mark, "]", [], 30, 31⟩]

example :
    (trees? attributeBehind.bytes).bind (·[2]?) = some (bracedCall attributeCall 11 31) := by
  decide +kernel

end Declaration
end NodeSchema
