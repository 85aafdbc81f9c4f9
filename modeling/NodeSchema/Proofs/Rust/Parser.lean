import NodeSchema.Proofs.Rust.Cursor
import NodeSchema.Proofs.Rust.Entry
import NodeSchema.Proofs.Rust.OneItem
import NodeSchema.Proofs.Rust.Unplaced
import NodeSchema.Text.Utf8

/-!
# What is known of a parser

The parser of source text comes from elsewhere, and so do the tokens of a macro call, which stand in
the text at places of their own (`Tree.StandsIn`).  A result that depends on what the parser makes
of a text has one of these as a hypothesis:

* `FileParser.Covers` — the entries of a text are all of it but blanks;
* `FileParser.ReadsHeads` — the head of a declaration at the front of a text, with attributes before
  it, is where the first item of the text begins, and names it;
* `FileParser.ReadsVariants` — blanks and comments may stand between the pieces of an enum, and do
  not matter.

Which texts are code, and which are blanks and comments that may stand between code, is for the
parser to say; `isCode` and `isTrivia` stand for that.
-/

set_option autoImplicit false

namespace NodeSchema
namespace Rust

open Text

/-! ## Slices -/

namespace Source

variable {source : Source} {a b c : Nat}

theorem slice_eq_take (source : Source) (a b : Nat) :
    source.slice a b = (source.bytes.drop a).take (b - a) := List.drop_take

theorem slice_append (hab : a ≤ b) (hbc : b ≤ c) :
    source.slice a b ++ source.slice b c = source.slice a c := by
  have hdrop : source.bytes.drop b = (source.bytes.drop a).drop (b - a) := by
    rw [List.drop_drop, Nat.add_sub_cancel' hab]
  rw [slice_eq_take, slice_eq_take, slice_eq_take, hdrop, ← List.take_add]
  congr 1
  omega

/-- A slice that stops no later than it must is the same. -/
theorem slice_length {bytes : List UInt8} (h : source.slice a b = bytes) :
    source.slice a (a + bytes.length) = bytes := by
  subst h
  rw [slice_eq_take, slice_eq_take, Nat.add_sub_cancel_left]
  exact (List.prefix_iff_eq_take.mp (List.take_prefix _ _)).symm

end Source

/-! ## Trees of a text -/

variable {source : Source} {isCode isTrivia : List UInt8 → Prop}

variable (source isTrivia) in
/-- Between two places stand the trees one behind the other, with blanks and comments around
them. -/
inductive AreLaid : Nat → List Tree → Nat → Prop
  | nil {start stop : Nat} (h : start ≤ stop) (gap : isTrivia (source.slice start stop)) :
      AreLaid start [] stop
  | cons {start stop : Nat} {t : Tree} {ts : List Tree} (h : start ≤ t.start)
      (gap : isTrivia (source.slice start t.start)) (order : t.start ≤ t.stop)
      (later : AreLaid t.stop ts stop) : AreLaid start (t :: ts) stop

theorem areLaid_nil_iff {start stop : Nat} : AreLaid source isTrivia start [] stop ↔
    start ≤ stop ∧ isTrivia (source.slice start stop) :=
  ⟨fun | .nil h gap => ⟨h, gap⟩, fun h ↦ .nil h.1 h.2⟩

theorem areLaid_cons_iff {start stop : Nat} {t : Tree} {ts : List Tree} :
    AreLaid source isTrivia start (t :: ts) stop ↔ start ≤ t.start ∧
      isTrivia (source.slice start t.start) ∧ t.start ≤ t.stop ∧
        AreLaid source isTrivia t.stop ts stop :=
  ⟨fun | .cons h gap order later => ⟨h, gap, order, later⟩,
    fun h ↦ .cons h.1 h.2.1 h.2.2.1 h.2.2.2⟩

instance AreLaid.decidable [DecidablePred isTrivia] : (start : Nat) → (ts : List Tree) →
    (stop : Nat) → Decidable (AreLaid source isTrivia start ts stop)
  | _, [], _ => decidable_of_iff _ areLaid_nil_iff.symm
  | _, t :: ts, stop =>
    have := AreLaid.decidable t.stop ts stop
    decidable_of_iff _ areLaid_cons_iff.symm

variable (source isCode) in
/-- What stands in the text from one tree to another one further on is code. -/
def AreCode (ts : List Tree) : Prop :=
  ∀ run, run <:+: ts → ∀ r ∈ Cursor.reach run, isCode (source.slice r.1 r.2)

variable (source isCode isTrivia) in
/-- A tree stands in a text at its place: a token as it is written there, and a group with what it
encloses between its delimiters, of which the closing one takes one byte. -/
inductive Tree.StandsIn : Tree → Prop
  | leaf {t : Token} (text : source.slice t.start t.stop = bytesOf t.text) : StandsIn (.leaf t)
  | group {o : Token} {body : List Tree} {c : Token} (order : o.start ≤ o.stop)
      (opener : source.slice o.start o.stop = bytesOf o.text) (stop : c.stop = c.start + 1)
      (closer : source.slice c.start c.stop = bytesOf c.text)
      (pair : openerOf c.text = some o.text)
      (laid : AreLaid source isTrivia o.stop body c.start)
      (code : AreCode source isCode body) (within : ∀ t ∈ body, StandsIn t) :
      StandsIn (.group o body c)

/-! ## Laws -/

/-- The bytes are blanks. -/
def IsBlank (bytes : List UInt8) : Prop := ∀ c ∈ Text.chars bytes, Lexeme.isSpace c = true

/-- An entry of a file as it is written from a place on. -/
def Entry.IsWritten (start : Nat) (bytes : List UInt8) : Entry Item → Prop
  | .comment text => chars bytes = text.toList ∧ bytes.head? = some (UInt8.ofNat 47)
  | .innerAttribute _ | .outerAttribute _ =>
    bytes.head? = some (UInt8.ofNat 35) ∧ bytes.getLast? = some (UInt8.ofNat 93)
  | .item i => chars bytes = i.text.toList ∧ i.start = start

/-- From a place on, a text is the given entries one behind the other, with blanks around them. -/
inductive AreWritten : Nat → List UInt8 → List (Entry Item) → Prop
  | nil {start : Nat} {blank : List UInt8} (h : IsBlank blank) : AreWritten start blank []
  | cons {start : Nat} {blank bytes later : List UInt8} {e : Entry Item} {es : List (Entry Item)}
      (h : IsBlank blank) (entry : e.IsWritten (start + blank.length) bytes)
      (rest : AreWritten (start + blank.length + bytes.length) later es) :
      AreWritten start (blank ++ (bytes ++ later)) (e :: es)

/-- Attributes, if there are any, each on a line of its own, and the head of a declaration. -/
def headText (attributes : Option (List UInt8)) (keyword name : String) : List UInt8 :=
  (attributes.elim [] fun run ↦ run ++ bytesOf "\n") ++
    bytesOf ("pub " ++ keyword ++ " " ++ name ++ " ")

/-- A variant as it is written: attributes if it has any, its name, and what it carries if that is
something. -/
structure VariantText where
  attributes : Option (List UInt8)
  name : List UInt8
  payload : Option (List UInt8)

/-- The pieces of a variant, with the comma behind it. -/
def VariantText.pieces (v : VariantText) : List (List UInt8) :=
  v.attributes.toList ++ v.name :: (v.payload.toList ++ [bytesOf ","])

variable (isTrivia) in
/-- A text is pieces one behind the other, with blanks and comments around them. -/
inductive IsLaidOut : List (List UInt8) → List UInt8 → Prop
  | nil {gap : List UInt8} (h : isTrivia gap) : IsLaidOut [] gap
  | cons {gap piece later : List UInt8} {pieces : List (List UInt8)} (h : isTrivia gap)
      (rest : IsLaidOut pieces later) : IsLaidOut (piece :: pieces) (gap ++ (piece ++ later))

/-- Nothing need stand before a piece. -/
theorem IsLaidOut.cons_of_nothing {piece later : List UInt8} {pieces : List (List UInt8)}
    (h : isTrivia []) (hlater : IsLaidOut isTrivia pieces later) :
    IsLaidOut isTrivia (piece :: pieces) (piece ++ later) :=
  have hcons : IsLaidOut isTrivia (piece :: pieces) ([] ++ (piece ++ later)) := .cons h hlater
  hcons

/-- The text of an enum, with `tail` behind it. -/
def enumText (attributes : Option (List UInt8)) (name : String) (inside tail : List UInt8) :
    List UInt8 :=
  headText attributes "enum" name ++ (bytesOf "\x7b" ++ (inside ++ (bytesOf "\x7d" ++ tail)))

/-- Two variants are the same, apart from the places of their attributes. -/
structure SameVariant (v v' : Attributed Variant) : Prop where
  item : v'.item = v.item
  attributes : v'.attributes.map Attribute.unplaced = v.attributes.map Attribute.unplaced

/-- Two items are the same enum, apart from places. -/
def SameEnum (i i' : Attributed Item) : Prop :=
  ∃ vs vs', i.item.body = .enum vs ∧ i'.item.body = .enum vs' ∧ i'.item.name = i.item.name ∧
    i'.attributes.map Attribute.unplaced = i.attributes.map Attribute.unplaced ∧
      List.Forall₂ SameVariant (Entry.pair vs) (Entry.pair vs')

namespace FileParser

variable (isCode isTrivia) [FileParser]

/-- Every byte of a text is a blank or belongs to an entry. -/
def Covers : Prop :=
  ∀ ⦃bytes : List UInt8⦄ ⦃es : List (Entry Item)⦄, parse bytes = .ok es → AreWritten 0 bytes es

/-- If a text begins with the head of a struct or an enum, perhaps behind attributes, then the first
item of the text begins there and has the name. -/
def ReadsHeads : Prop :=
  ∀ (attributes : Option (List UInt8)) (name : Token) (rest : List UInt8) (es : List (Entry Item)),
    (∀ run ∈ attributes, isCode run) → name.isIdentifier = true → isCode (bytesOf name.text) →
      ∀ keyword ∈ ["struct", "enum"],
        parse (headText attributes keyword name.text ++ rest) = .ok es →
          ∃ before i behind, es = before ++ .item i :: behind ∧
            (∀ e ∈ before, e.isItem = false) ∧ i.name = some name.text ∧
              i.start = (attributes.elim [] fun run ↦ run ++ bytesOf "\n").length

/-- Blanks and comments may stand between the pieces of an enum, and do not matter. -/
structure ReadsVariants : Prop where
  nothing : isTrivia []
  space : isTrivia (bytesOf " ")
  newline : isTrivia (bytesOf "\n")
  /-- Two texts of the same pieces are read alike. -/
  enum {attributes : Option (List UInt8)} {name : Token} {variants : List VariantText}
    {inside inside' tail tail' : List UInt8} {i : Attributed Item}
    (hattributes : ∀ run ∈ attributes, isCode run) (hname : name.isIdentifier = true)
    (hcode : isCode (bytesOf name.text))
    (hpieces : ∀ piece ∈ variants.flatMap VariantText.pieces, isCode piece)
    (hinside : IsLaidOut isTrivia (variants.flatMap VariantText.pieces) inside)
    (hinside' : IsLaidOut isTrivia (variants.flatMap VariantText.pieces) inside')
    (htail : isTrivia tail) (htail' : isTrivia tail')
    (h : HoldsOne (enumText attributes name.text inside tail) .enum i) :
    ∃ i', HoldsOne (enumText attributes name.text inside' tail') .enum i' ∧ SameEnum i i'

end FileParser
end Rust
end NodeSchema
