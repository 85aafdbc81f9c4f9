import NodeSchema.Proofs.Rust.Grammar.Type
import NodeSchema.Rust.Grammar.Item

/-!
# Reading items without looking at places
-/

set_option autoImplicit false

namespace NodeSchema
namespace Rust
namespace Grammar

variable {α : Type} {code : Code}

/-! ## Paths and visibility -/

theorem pathTail_blind : SkipsBlindly pathTail := fun ts ↦
  bind_blind (sign_blind "::" ts) (skip_blind anyWord_blind)

theorem wordPath_blind : SkipsBlindly wordPath := by
  intro ts
  refine bind_blind (firstOf_blind (fun p hp ↦ ?_) ts) fun rest ↦ ?_
  · simp only [List.mem_cons, List.not_mem_nil, or_false] at hp
    rcases hp with rfl | rfl | rfl
    · exact metavariable_blind
    · exact skip_blind anyWord_blind
    · exact pathTail_blind
  · rw [many_blind pathTail_blind]
    rfl

theorem isRestriction_blind : TestsBlindly isRestriction := by
  intro ts
  have hin := bind_blind (word_blind "in" ts) wordPath_blind
  rw [isRestriction, isRestriction, oneWord_blind, hin]
  exact congr (congrArg or (isDone_blind _)) (isDone_blind _)

theorem visibility?_blind : ReadsBlindly id visibility? := by
  intro ts
  rw [visibility?, visibility?, word_blind]
  cases word "pub" ts with
  | some rest =>
    dsimp only [Option.map_some]
    rw [groupThat_blind "(" isRestriction_blind]
    cases groupThat "(" isRestriction rest with
    | some rest' => rfl
    | none => rfl
  | none =>
    dsimp only [Option.map_none]
    rw [word_blind]
    cases word "crate" ts with
    | none => rfl
    | some rest =>
      dsimp only [Option.map_some]
      rw [isSome_blind (sign_blind "::" rest)]
      exact ite_blind (fun _ ↦ rfl) fun _ ↦ rfl

theorem visibility_blind (ts : List Tree) :
    visibility (ts.map Tree.unplaced) = Prod.map id (List.map Tree.unplaced) (visibility ts) := by
  rw [visibility, visibility, visibility?_blind]
  cases visibility? ts with
  | none => rfl
  | some r => rfl

/-! ## Attributes -/

/-- What an attribute is set equal to, if it is no plain string. -/
theorem otherValue_blind (hcode : code.IsBlind) (a : Attribute) (value : List Tree) :
    (if (code.value (value.map Tree.unplaced)) matches some [] then some a.unplaced else none) =
      (if (code.value value) matches some [] then some a else none).map Attribute.unplaced := by
  rw [hcode.value]
  rcases code.value value with _ | _ | _ <;> rfl

/-- What an attribute is set equal to: a plain string, or another value. -/
def attributeValue (code : Code) (a : Attribute) (value : List Tree) : Option Attribute :=
  match value with
  | [.leaf t] =>
    if t.kind = .string then some { a with value := some (.string t.text t.start) }
    else if (code.value value) matches some [] then some a else none
  | _ => if (code.value value) matches some [] then some a else none

theorem attributeValue_blind (hcode : code.IsBlind) (a : Attribute) (value : List Tree) :
    attributeValue code a.unplaced (value.map Tree.unplaced) =
      (attributeValue code a value).map Attribute.unplaced := by
  have hother := otherValue_blind hcode a value
  rcases value with _ | ⟨t | _, _ | _⟩
  · exact hother
  · exact ite_blind (fun _ ↦ rfl) fun _ ↦ hother
  all_goals exact hother

theorem attributeBody_blind (hcode : code.IsBlind) (body : List Tree) :
    attributeBody code (body.map Tree.unplaced) =
      (attributeBody code body).map Attribute.unplaced := by
  refine bind_blind (wordPath_blind body) fun rest ↦ ?_
  refine bind_blind (g := Tree.unplaced) List.head?_map fun first ↦ ?_
  have hvalue := bind_blind (sign_blind "=" rest) (attributeValue_blind hcode
    ⟨textOf (consumed body rest), textOf body, first.start, none, some .other⟩)
  rw [textOf_consumed_unplaced, textOf_unplaced, Tree.start_unplaced]
  rcases rest with _ | ⟨t | ⟨o, b, c⟩, _ | ⟨u, rest⟩⟩
  · rfl
  · exact hvalue
  · exact hvalue
  · show some (Attribute.mk _ _ _ (some (Tree.joined (Tree.unplaced (.group o b c)))) _) = _
    rw [Tree.joined_unplaced]
    rfl
  · exact hvalue

theorem outerAttribute_blind (hcode : code.IsBlind) :
    ReadsBlindly Attribute.unplaced (outerAttribute code) := fun ts ↦
  bind_blind (sign_blind "#" ts) fun rest ↦ bind_blind (group_blind "[" rest) fun r ↦
    bind_blind (attributeBody_blind hcode r.1) fun _ ↦ rfl

theorem innerAttribute_blind (hcode : code.IsBlind) :
    ReadsBlindly Attribute.unplaced (innerAttribute code) := fun ts ↦
  bind_blind (sign_blind "#" ts) fun rest ↦ bind_blind (sign_blind "!" rest) fun rest ↦
    bind_blind (group_blind "[" rest) fun r ↦
      bind_blind (attributeBody_blind hcode r.1) fun _ ↦ rfl

theorem outerAttributesFuel_blind (hcode : code.IsBlind) (fuel : Nat) (ts : List Tree) :
    outerAttributesFuel code fuel (ts.map Tree.unplaced) =
      Prod.map (List.map Attribute.unplaced) (List.map Tree.unplaced)
        (outerAttributesFuel code fuel ts) := by
  induction fuel generalizing ts with
  | zero => rfl
  | succ fuel ih =>
    rw [outerAttributesFuel, outerAttributesFuel, outerAttribute_blind hcode]
    cases outerAttribute code ts with
    | none => rfl
    | some r =>
      dsimp only [Option.map_some, Prod.map]
      rw [ih]
      rfl

theorem outerAttributes_blind (hcode : code.IsBlind) (ts : List Tree) :
    outerAttributes code (ts.map Tree.unplaced) =
      Prod.map (List.map Attribute.unplaced) (List.map Tree.unplaced)
        (outerAttributes code ts) := by
  rw [outerAttributes, outerAttributes, List.length_map, outerAttributesFuel_blind hcode]

theorem commentsBefore_blind (f : Entry α → Entry α)
    (hf : ∀ text, f (.comment text) = .comment text) (ts : List Tree) :
    commentsBefore (ts.map Tree.unplaced) = (commentsBefore ts).map f := by
  cases ts with
  | nil => rfl
  | cons t ts =>
    rw [List.map_cons, commentsBefore, commentsBefore, Tree.first_unplaced, List.map_map]
    exact List.map_congr_left fun l _ ↦ (hf _).symm

theorem member_blind (hcode : code.IsBlind) {p : Parser α} (h : ReadsBlindly id p) :
    ReadsBlindly (List.map Entry.unplaced) (member code p) := by
  intro ts
  rw [member, member, outerAttributes_blind hcode]
  refine bind_blind (h _) fun r ↦ ?_
  rw [commentsBefore_blind Entry.unplaced fun _ ↦ rfl]
  show some (_, _) = some (_, _)
  simp only [List.map_append, List.map_map]
  rfl

theorem members_blind (hcode : code.IsBlind) {p : Parser α} (h : ReadsBlindly id p)
    (ts : List Tree) :
    members code p (ts.map Tree.unplaced) = (members code p ts).map (List.map Entry.unplaced) :=
  map_blind (commaList_blind (member_blind hcode h) ts) fun _ ↦ List.map_flatten.symm

/-! ## Structs and enums -/

theorem field_blind (hcode : code.IsBlind) : ReadsBlindly id (field code) := by
  intro ts
  rw [field, field, visibility_blind]
  exact bind_blind (anyWord_blind _) fun r ↦ bind_blind (sign_blind ":" r.2) fun rest ↦
    bind_blind (type_blind hcode rest) fun _ ↦ rfl

theorem positionalMember_blind (hcode : code.IsBlind) :
    ReadsBlindly id (positionalMember code) := by
  intro ts
  rw [positionalMember, positionalMember, outerAttributes_blind hcode]
  dsimp only [Prod.map]
  rw [visibility_blind]
  exact type_blind hcode _

/-- What a variant is set equal to. -/
theorem optionalValue_blind (hcode : code.IsBlind) : SkipsBlindly (optionalValue code) := by
  intro ts
  rw [optionalValue, optionalValue, sign_blind]
  cases sign "=" ts with
  | none => rfl
  | some after => exact hcode.value after

/-- The variant, with the value that it may be set equal to. -/
def withDiscriminant (code : Code) (v : Variant) : Parser Variant := fun rest =>
  match sign "=" rest with
  | none => some (v, rest)
  | some after => do
    let rest ← code.value after
    some (v, rest)

theorem withDiscriminant_blind (hcode : code.IsBlind) (v : Variant) :
    ReadsBlindly id (withDiscriminant code v) := by
  intro rest
  rw [withDiscriminant, withDiscriminant, sign_blind]
  cases sign "=" rest with
  | none => rfl
  | some after => exact bind_blind (hcode.value after) fun _ ↦ rfl

theorem variant_blind (hcode : code.IsBlind) : ReadsBlindly id (variant code) := by
  intro ts
  have hvalue := withDiscriminant_blind hcode
  rw [variant, variant, visibility_blind]
  refine bind_blind (anyWord_blind _) fun r ↦ ?_
  obtain ⟨name, rest⟩ := r
  rcases rest with _ | ⟨t | ⟨o, body, c⟩, rest⟩
  · exact hvalue ⟨name.text, .unit⟩ []
  · exact hvalue ⟨name.text, .unit⟩ (.leaf t :: rest)
  · refine ite_blind (fun _ ↦ ?_) fun _ ↦ ite_blind (fun _ ↦ ?_) fun _ ↦
      hvalue ⟨name.text, .unit⟩ (.group o body c :: rest)
    · have htypes := commaList_blind (positionalMember_blind hcode) body
      rw [← Tree.unplacedAll_eq_map] at htypes
      refine bind_blind htypes fun types ↦ ?_
      rw [List.map_id]
      exact hvalue ⟨name.text, .positional types⟩ rest
    · have hfields := members_blind hcode (field_blind hcode) body
      rw [← Tree.unplacedAll_eq_map] at hfields
      exact bind_blind hfields fun _ ↦ hvalue ⟨name.text, .named⟩ rest

/-! ## Clauses -/

theorem condition_blind (hcode : code.IsBlind) : SkipsBlindly (condition code) := by
  intro ts
  have hbounds : SkipsBlindly fun rest ↦ sign ":" rest >>= bounds code := fun rest ↦
    bind_blind (sign_blind ":" rest) (bounds_blind hcode)
  have htype := skip_blind (simpleType_blind hcode)
  rw [condition, condition, lifetime_blind]
  cases lifetime ts with
  | some rest => exact hbounds rest
  | none =>
    dsimp only [Option.map_none]
    rw [word_blind]
    cases word "for" ts with
    | none => exact bind_blind (htype ts) hbounds
    | some after =>
      exact bind_blind (typeParameters_blind hcode after) fun after ↦
        bind_blind (htype after) hbounds

theorem conditionsFuel_blind (hcode : code.IsBlind) (fuel : Nat) (ts : List Tree) :
    conditionsFuel code fuel (ts.map Tree.unplaced) =
      (conditionsFuel code fuel ts).map Tree.unplaced := by
  induction fuel generalizing ts with
  | zero => rfl
  | succ fuel ih =>
    rw [conditionsFuel, conditionsFuel, condition_blind hcode]
    cases condition code ts with
    | none => rfl
    | some rest =>
      dsimp only [Option.map_some]
      rw [sign_blind]
      cases sign "," rest with
      | none => rfl
      | some after => exact ih after

theorem whereClause_blind (hcode : code.IsBlind) (ts : List Tree) :
    whereClause code (ts.map Tree.unplaced) = (whereClause code ts).map Tree.unplaced := by
  rw [whereClause, whereClause, word_blind]
  cases word "where" ts with
  | none => rfl
  | some rest =>
    dsimp only [Option.map_some]
    rw [List.length_map, conditionsFuel_blind hcode]

theorem optionalParameters_blind (hcode : code.IsBlind) :
    SkipsBlindly (optionalParameters code) := by
  intro ts
  rw [optionalParameters, optionalParameters, sign_blind]
  cases sign "<" ts with
  | none => rfl
  | some _ => exact typeParameters_blind hcode ts

theorem optionalBounds_blind (hcode : code.IsBlind) : SkipsBlindly (optionalBounds code) := by
  intro ts
  rw [optionalBounds, optionalBounds, sign_blind]
  cases sign ":" ts with
  | none => rfl
  | some rest => exact bounds_blind hcode rest

theorem optionalReturn_blind (hcode : code.IsBlind) : SkipsBlindly (optionalReturn code) := by
  intro ts
  rw [optionalReturn, optionalReturn, sign_blind]
  cases sign "->" ts with
  | none => rfl
  | some rest => exact skip_blind (type_blind hcode) rest

/-! ## Each kind of item -/

/-- What an item says, apart from places. -/
def Reading.unplaced (r : Reading) : Reading := (r.1, r.2.unplaced)

theorem readModule_blind (hcode : code.IsBlind) :
    ReadsBlindly Reading.unplaced (readModule code) := by
  intro ts
  refine bind_blind (word_blind "mod" ts) fun rest ↦ bind_blind (anyWord_blind rest) fun r ↦ ?_
  obtain ⟨name, rest⟩ := r
  dsimp only [Prod.map]
  rw [sign_blind]
  cases sign ";" rest with
  | some rest' => rfl
  | none => exact bind_blind (groupThat_blind "\x7b" hcode.declarations rest) fun _ ↦ rfl

theorem readStruct_blind (hcode : code.IsBlind) :
    ReadsBlindly Reading.unplaced (readStruct code) := by
  intro ts
  refine bind_blind (word_blind "struct" ts) fun rest ↦ bind_blind (anyWord_blind rest) fun r ↦
    bind_blind (optionalParameters_blind hcode r.2) fun rest ↦ ?_
  rw [sign_blind]
  cases sign ";" rest with
  | some rest' => rfl
  | none =>
    dsimp only [Option.map_none]
    rw [group_blind]
    cases group "(" rest with
    | some r =>
      obtain ⟨body, after⟩ := r
      refine bind_blind (commaList_blind (positionalMember_blind hcode) body) fun _ ↦ ?_
      rw [whereClause_blind hcode]
      exact bind_blind (sign_blind ";" _) fun _ ↦ rfl
    | none =>
      dsimp only [Option.map_none]
      rw [whereClause_blind hcode]
      exact bind_blind (group_blind "\x7b" _) fun r ↦
        bind_blind (members_blind hcode (field_blind hcode) r.1) fun _ ↦ rfl

theorem readUnion_blind (hcode : code.IsBlind) :
    ReadsBlindly Reading.unplaced (readUnion code) := by
  intro ts
  refine bind_blind (word_blind "union" ts) fun rest ↦ bind_blind (anyWord_blind rest) fun r ↦
    bind_blind (optionalParameters_blind hcode r.2) fun rest ↦ ?_
  rw [whereClause_blind hcode]
  exact bind_blind (group_blind "\x7b" _) fun r ↦
    bind_blind (members_blind hcode (field_blind hcode) r.1) fun _ ↦ rfl

theorem readEnum_blind (hcode : code.IsBlind) :
    ReadsBlindly Reading.unplaced (readEnum code) := by
  intro ts
  refine bind_blind (word_blind "enum" ts) fun rest ↦ bind_blind (anyWord_blind rest) fun r ↦
    bind_blind (optionalParameters_blind hcode r.2) fun rest ↦ ?_
  rw [whereClause_blind hcode]
  exact bind_blind (group_blind "\x7b" _) fun r ↦
    bind_blind (members_blind hcode (variant_blind hcode) r.1) fun _ ↦ rfl

theorem readTypeAlias_blind (hcode : code.IsBlind) :
    ReadsBlindly Reading.unplaced (readTypeAlias code) := by
  intro ts
  refine bind_blind (word_blind "type" ts) fun rest ↦ bind_blind (anyWord_blind rest) fun r ↦
    bind_blind (optionalParameters_blind hcode r.2) fun rest ↦ ?_
  rw [whereClause_blind hcode]
  refine bind_blind (sign_blind "=" _) fun rest ↦ bind_blind (type_blind hcode rest) fun r ↦ ?_
  dsimp only [Prod.map]
  rw [whereClause_blind hcode]
  exact bind_blind (sign_blind ";" _) fun _ ↦ rfl

theorem readAssociatedType_blind (hcode : code.IsBlind) :
    ReadsBlindly Reading.unplaced (readAssociatedType code) := by
  intro ts
  refine bind_blind (word_blind "type" ts) fun rest ↦ bind_blind (anyWord_blind rest) fun r ↦
    bind_blind (optionalParameters_blind hcode r.2) fun rest ↦
      bind_blind (optionalBounds_blind hcode rest) fun rest ↦ ?_
  rw [whereClause_blind hcode]
  exact bind_blind (sign_blind ";" _) fun _ ↦ rfl

/-- The name of a function, which may be bound by a macro. -/
theorem functionName_blind : ReadsBlindly id (either (fun ts ↦ do
      let rest ← metavariable ts
      some (textOf (consumed ts rest), rest))
    (fun ts ↦ (anyWord ts).map fun r ↦ (r.1.text, r.2))) :=
  either_blind
    (fun ts ↦ bind_blind (metavariable_blind ts) fun rest ↦ text_blind id ts rest)
    fun ts ↦ map_blind (anyWord_blind ts) fun _ ↦ rfl

theorem readFunction_blind (hcode : code.IsBlind) :
    ReadsBlindly Reading.unplaced (readFunction code) := by
  intro ts
  rw [readFunction, readFunction, many_blind modifier_blind]
  refine bind_blind (word_blind "fn" _) fun rest ↦ bind_blind (functionName_blind rest) fun r ↦
    bind_blind (optionalParameters_blind hcode r.2) fun rest ↦
      bind_blind (groupThat_blind "(" hcode.parameters rest) fun rest ↦
        bind_blind (optionalReturn_blind hcode rest) fun rest ↦ ?_
  rw [whereClause_blind hcode]
  dsimp only
  rw [sign_blind]
  cases sign ";" (whereClause code rest) with
  | some rest' => rfl
  | none => exact bind_blind (groupThat_blind "\x7b" hcode.block _) fun _ ↦ rfl

/-- The type that an implementation is of, and its body. -/
def implementedFor (code : Code) : Parser Reading := fun rest => do
  let (_, rest) ← type code rest
  let rest := whereClause code rest
  match sign ";" rest with
  | some rest' => some ((none, .plain .implementation), rest')
  | none =>
    let rest' ← groupThat "\x7b" code.declarations rest
    some ((none, .plain .implementation), rest')

theorem implementedFor_blind (hcode : code.IsBlind) :
    ReadsBlindly Reading.unplaced (implementedFor code) := by
  intro rest
  refine bind_blind (type_blind hcode rest) fun r ↦ ?_
  dsimp only [Prod.map]
  rw [whereClause_blind hcode, sign_blind]
  cases sign ";" (whereClause code r.2) with
  | some rest' => rfl
  | none => exact bind_blind (groupThat_blind "\x7b" hcode.declarations _) fun _ ↦ rfl

theorem readImplementation_blind (hcode : code.IsBlind) :
    ReadsBlindly Reading.unplaced (readImplementation code) := by
  intro ts
  have htrait (rest : List Tree) :
      (do word "for" (← skip (simpleType code) (optionally (sign "!") (rest.map Tree.unplaced)))) =
        (do word "for" (← skip (simpleType code) (optionally (sign "!") rest))).map
          (List.map Tree.unplaced) := by
    rw [optionally_blind (sign_blind "!")]
    exact bind_blind (skip_blind (simpleType_blind hcode) _) (word_blind "for")
  have hrest := implementedFor_blind hcode
  rw [readImplementation, readImplementation, optionally_blind (word_blind "unsafe")]
  refine bind_blind (word_blind "impl" _) fun rest ↦
    bind_blind (optionalParameters_blind hcode rest) fun rest ↦ ?_
  rw [htrait]
  cases (do word "for" (← skip (simpleType code) (optionally (sign "!") rest))) with
  | none => exact hrest rest
  | some after => exact hrest after

theorem readTrait_blind (hcode : code.IsBlind) :
    ReadsBlindly Reading.unplaced (readTrait code) := by
  intro ts
  rw [readTrait, readTrait, optionally_blind (word_blind "unsafe")]
  refine bind_blind (word_blind "trait" _) fun rest ↦ bind_blind (anyWord_blind rest) fun r ↦
    bind_blind (optionalParameters_blind hcode r.2) fun rest ↦
      bind_blind (optionalBounds_blind hcode rest) fun rest ↦ ?_
  rw [whereClause_blind hcode]
  exact bind_blind (groupThat_blind "\x7b" hcode.declarations _) fun _ ↦ rfl

theorem readConstant_blind (hcode : code.IsBlind) :
    ReadsBlindly Reading.unplaced (readConstant code) := fun ts ↦
  bind_blind (word_blind "const" ts) fun rest ↦ bind_blind (anyWord_blind rest) fun r ↦
    bind_blind (sign_blind ":" r.2) fun rest ↦ bind_blind (type_blind hcode rest) fun r ↦
      bind_blind (optionalValue_blind hcode r.2) fun rest ↦
        bind_blind (sign_blind ";" rest) fun _ ↦ rfl

theorem readStatic_blind (hcode : code.IsBlind) :
    ReadsBlindly Reading.unplaced (readStatic code) := by
  intro ts
  refine bind_blind (word_blind "static" ts) fun rest ↦ ?_
  rw [optionally_blind (word_blind "ref"), optionally_blind (word_blind "mut")]
  exact bind_blind (anyWord_blind _) fun r ↦
    bind_blind (sign_blind ":" r.2) fun rest ↦ bind_blind (type_blind hcode rest) fun r ↦
      bind_blind (optionalValue_blind hcode r.2) fun rest ↦
        bind_blind (sign_blind ";" rest) fun _ ↦ rfl

theorem readExternCrate_blind : ReadsBlindly Reading.unplaced readExternCrate := by
  intro ts
  have has : SkipsBlindly (fun ts ↦ do skip anyWord (← word "as" ts)) := fun ts ↦
    bind_blind (word_blind "as" ts) (skip_blind anyWord_blind)
  refine bind_blind (word_blind "extern" ts) fun rest ↦ bind_blind (word_blind "crate" rest)
    fun rest ↦ bind_blind (anyWord_blind rest) fun r ↦ ?_
  dsimp only [Prod.map]
  rw [optionally_blind has]
  exact bind_blind (sign_blind ";" _) fun _ ↦ rfl

/-- Passes over the name of a linkage. -/
def linkage : Skipper
  | .leaf t :: rest => if t.kind = .string then some rest else none
  | _ => none

theorem linkage_blind : SkipsBlindly linkage := by
  rintro (_ | ⟨_ | _, rest⟩)
  · rfl
  · exact ite_blind (fun _ ↦ rfl) fun _ ↦ rfl
  · rfl

/-- The body of a foreign module. -/
def foreignBody (code : Code) : Parser Reading := fun rest =>
  match sign ";" rest with
  | some rest' => some ((none, .plain .foreignModule), rest')
  | none => do
    let rest' ← groupThat "\x7b" code.declarations rest
    some ((none, .plain .foreignModule), rest')

theorem foreignBody_blind (hcode : code.IsBlind) :
    ReadsBlindly Reading.unplaced (foreignBody code) := by
  intro rest
  rw [foreignBody, foreignBody, sign_blind]
  cases sign ";" rest with
  | some rest' => rfl
  | none => exact bind_blind (groupThat_blind "\x7b" hcode.declarations rest) fun _ ↦ rfl

theorem readForeignModule_blind (hcode : code.IsBlind) :
    ReadsBlindly Reading.unplaced (readForeignModule code) := by
  intro ts
  refine bind_blind (word_blind "extern" ts) fun rest ↦ ?_
  exact optionally_then_blind linkage_blind (foreignBody_blind hcode) rest

/-! ### Imports -/

structure ImportsBlind (fuel : Nat) : Prop where
  clause : ReadsBlindly id (useClauseFuel fuel)
  list (ts : List Tree) : useListFuel fuel (ts.map Tree.unplaced) = (useListFuel fuel ts).map id
  clauses (ts : List Tree) :
    useClausesFuel fuel (ts.map Tree.unplaced) = (useClausesFuel fuel ts).map id

namespace ImportsBlind

variable {fuel : Nat}

theorem clause_succ (h : ImportsBlind fuel) : ReadsBlindly id (useClauseFuel (fuel + 1)) := by
  intro ts
  rw [useClauseFuel, useClauseFuel, group_blind]
  cases group "\x7b" ts with
  | some r => exact map_blind (h.list r.1) fun _ ↦ rfl
  | none =>
    dsimp only [Option.map_none]
    rw [sign_blind]
    cases sign "*" ts with
    | some rest => rfl
    | none =>
      dsimp only [Option.map_none]
      rw [wordPath_blind]
      cases wordPath ts with
      | none =>
        refine bind_blind (sign_blind "::" ts) fun after ↦ ?_
        rw [sign_blind]
        cases sign "*" after with
        | some rest => rfl
        | none =>
          exact bind_blind (group_blind "\x7b" after) fun r ↦ bind_blind (h.list r.1) fun _ ↦ rfl
      | some rest =>
        dsimp only [Option.map_some]
        rw [textOf_consumed_unplaced, sign_blind]
        cases sign "::" rest with
        | some after =>
          dsimp only [Option.map_some]
          rw [sign_blind]
          cases sign "*" after with
          | some rest' => rfl
          | none =>
            exact bind_blind (group_blind "\x7b" after) fun r ↦
              bind_blind (h.list r.1) fun _ ↦ rfl
        | none =>
          dsimp only [Option.map_none]
          rw [word_blind]
          cases word "as" rest with
          | some after => exact bind_blind (anyWord_blind after) fun _ ↦ rfl
          | none => rfl

theorem list_succ (h : ImportsBlind fuel) (ts : List Tree) :
    useListFuel (fuel + 1) (ts.map Tree.unplaced) = (useListFuel (fuel + 1) ts).map id := by
  cases ts with
  | nil => rfl
  | cons t ts =>
    have hclauses := h.clauses (t :: ts)
    have hsign := sign_blind "," (t :: ts)
    rw [List.map_cons] at hclauses hsign ⊢
    rw [useListFuel, useListFuel, hsign]
    · rcases sign "," (t :: ts) with _ | _ | _
      · exact hclauses
      · rfl
      · exact hclauses
    · exact List.cons_ne_nil _ _
    · exact List.cons_ne_nil _ _

theorem clauses_succ (h : ImportsBlind fuel) (ts : List Tree) :
    useClausesFuel (fuel + 1) (ts.map Tree.unplaced) =
      (useClausesFuel (fuel + 1) ts).map id := by
  rw [useClausesFuel, useClausesFuel]
  refine bind_blind (h.clause ts) fun r ↦ ?_
  obtain ⟨u, rest⟩ := r
  cases rest with
  | nil => rfl
  | cons v rest =>
    refine bind_blind (sign_blind "," (v :: rest)) fun after ↦ ?_
    cases after with
    | nil => rfl
    | cons w after => exact map_blind (h.clauses (w :: after)) fun _ ↦ rfl

end ImportsBlind

theorem importsBlind (fuel : Nat) : ImportsBlind fuel := by
  induction fuel with
  | zero => exact ⟨fun _ ↦ rfl, fun _ ↦ rfl, fun _ ↦ rfl⟩
  | succ fuel ih => exact ⟨ih.clause_succ, ih.list_succ, ih.clauses_succ⟩

theorem readUse_blind : ReadsBlindly Reading.unplaced readUse := by
  intro ts
  refine bind_blind (word_blind "use" ts) fun rest ↦ ?_
  rw [Tree.sizeList_unplaced]
  exact bind_blind ((importsBlind _).clause rest) fun r ↦ bind_blind (sign_blind ";" r.2)
    fun _ ↦ rfl

/-! ### Macros -/

/-- What is called, and with what: the call began at `ts`, and `rest` follows its name. -/
def calledMacro (ts rest : List Tree) (start : Nat) : Option (MacroCall × List Tree) := do
  let after ← sign "!" rest
  let (g, rest') ← anyGroup after
  some (⟨textOf (consumed ts rest), g.joined, textOf (consumed ts rest'), start⟩, rest')

theorem calledMacro_blind (ts rest : List Tree) (start : Nat) :
    calledMacro (ts.map Tree.unplaced) (rest.map Tree.unplaced) 0 =
      (calledMacro ts rest start).map (Prod.map MacroCall.unplaced (List.map Tree.unplaced)) := by
  refine bind_blind (sign_blind "!" rest) fun after ↦ bind_blind (anyGroup_blind after) fun r ↦ ?_
  dsimp only [Prod.map]
  rw [textOf_consumed_unplaced, textOf_consumed_unplaced, Tree.joined_unplaced]
  rfl

theorem macroCall_blind : ReadsBlindly MacroCall.unplaced macroCall := by
  intro ts
  refine bind_blind (g := Tree.unplaced) List.head?_map fun first ↦
    bind_blind (wordPath_blind ts) fun rest ↦ ?_
  have hsimple : (sign "::" ((ts.map Tree.unplaced).drop 1)).isNone =
      (sign "::" (ts.drop 1)).isNone := by
    rw [← List.map_drop, sign_blind, Option.isNone_map]
  have hcall := calledMacro_blind ts rest first.start
  rw [← Tree.start_unplaced first] at hcall
  rw [hsimple]
  cases first with
  | leaf t => exact ite_blind (fun _ ↦ rfl) fun _ ↦ hcall
  | group o body c => exact ite_blind (fun _ ↦ rfl) fun _ ↦ hcall

theorem startsBinder_blind : TestsBlindly startsBinder := by
  rintro (_ | ⟨_ | _, _⟩) <;> rfl

theorem rulesFit_unplacedAll (ts : List Tree) : rulesFit (Tree.unplacedAll ts) = rulesFit ts := by
  match ts with
  | [] => rfl
  | .leaf t :: rest =>
    rw [Tree.unplacedAll, Tree.unplaced, rulesFit, rulesFit, rulesFit_unplacedAll rest,
      startsBinder_blind.unplacedAll]
    rfl
  | .group o body c :: rest =>
    rw [Tree.unplacedAll, Tree.unplaced, rulesFit, rulesFit, rulesFit_unplacedAll body,
      rulesFit_unplacedAll rest]

theorem rulesFit_blind : TestsBlindly rulesFit := fun ts ↦ by
  rw [← Tree.unplacedAll_eq_map, rulesFit_unplacedAll]

theorem macroRule_blind : SkipsBlindly macroRule := by
  intro ts
  refine bind_blind (anyGroup_blind ts) fun r ↦ bind_blind (sign_blind "=>" r.2) fun rest ↦
    bind_blind (anyGroup_blind rest) fun r' ↦ ?_
  dsimp only [Prod.map]
  rw [Tree.body_unplaced, Tree.body_unplaced, rulesFit_blind, rulesFit_blind]
  exact ite_blind (fun _ ↦ rfl) fun _ ↦ rfl

/-- What follows a rule: a semicolon, and further rules. -/
def rulesAfter (fuel : Nat) (rest : List Tree) : Bool :=
  match sign ";" rest with
  | some after => macroRulesFuel fuel after
  | none => false

theorem rulesAfter_blind {fuel : Nat} (h : TestsBlindly (macroRulesFuel fuel)) :
    TestsBlindly (rulesAfter fuel) := by
  intro rest
  rw [rulesAfter, rulesAfter, sign_blind]
  cases sign ";" rest with
  | none => rfl
  | some after => exact h after

theorem macroRulesFuel_blind (fuel : Nat) : TestsBlindly (macroRulesFuel fuel) := by
  intro ts
  induction fuel generalizing ts with
  | zero => cases ts <;> rfl
  | succ fuel ih =>
    cases ts with
    | nil => rfl
    | cons t ts =>
      have hrule := macroRule_blind (t :: ts)
      have hsign := sign_blind ";" (t :: ts)
      rw [List.map_cons] at hrule hsign ⊢
      rw [macroRulesFuel, macroRulesFuel, hrule, hsign]
      · rcases macroRule (t :: ts) with _ | _ | ⟨v, rest⟩
        · exact isDone_blind _
        · rfl
        · exact rulesAfter_blind ih (v :: rest)
      · exact List.cons_ne_nil _ _
      · exact List.cons_ne_nil _ _

theorem definitionWord_blind : SkipsBlindly definitionWord := by
  intro ts
  refine bind_blind (word_blind "macro_rules" ts) fun rest ↦
    bind_blind (g := Tree.unplaced) List.head?_map fun bang ↦
      bind_blind (sign_blind "!" rest) fun rest' ↦ ?_
  rw [Tree.first_unplaced]
  exact ite_blind (fun _ ↦ rfl) fun _ ↦ rfl

theorem readMacroDefinition_blind : ReadsBlindly Reading.unplaced readMacroDefinition := by
  intro ts
  refine bind_blind (definitionWord_blind ts) fun rest ↦ bind_blind (anyWord_blind rest) fun r ↦
    bind_blind (anyGroup_blind r.2) fun r' ↦ ?_
  dsimp only [Prod.map]
  rw [Tree.size_unplaced, Tree.body_unplaced, macroRulesFuel_blind, Tree.opener?_unplaced]
  exact ite_blind (fun _ ↦ ite_blind (fun _ ↦ rfl) fun _ ↦
    bind_blind (sign_blind ";" r'.2) fun _ ↦ rfl) fun _ ↦ rfl

/-! ## Statements -/

/-- What a name is given by `let`, and the end of the statement. -/
def letValue (code : Code) : Parser Reading := fun rest => do
  let rest ← optionalValue code rest
  let rest ← match word "else" rest with
    | some after => groupThat "\x7b" code.block after
    | none => some rest
  let rest' ← sign ";" rest
  some ((none, .plain .letDeclaration), rest')

theorem letValue_blind (hcode : code.IsBlind) :
    ReadsBlindly Reading.unplaced (letValue code) := by
  have hend : ReadsBlindly Reading.unplaced (fun rest ↦ do
      let rest' ← sign ";" rest
      some ((none, .plain .letDeclaration), rest')) := fun rest ↦
    bind_blind (sign_blind ";" rest) fun _ ↦ rfl
  intro rest
  refine bind_blind (optionalValue_blind hcode rest) fun rest ↦ ?_
  rw [word_blind]
  cases word "else" rest with
  | none => exact hend rest
  | some after => exact bind_blind (groupThat_blind "\x7b" hcode.block after) hend

theorem readLet_blind (hcode : code.IsBlind) : ReadsBlindly Reading.unplaced (readLet code) := by
  intro ts
  have helse := letValue_blind hcode
  refine bind_blind (word_blind "let" ts) fun rest ↦ ?_
  rw [optionally_blind (word_blind "mut")]
  refine bind_blind (hcode.pattern _) fun rest ↦ ?_
  rw [sign_blind]
  cases sign ":" rest with
  | none => exact helse rest
  | some after => exact bind_blind (skip_blind (type_blind hcode) after) helse

/-- The first of several readers. -/
theorem findSome?_blind {g : α → α} {ps : List (Parser α)} (h : ∀ p ∈ ps, ReadsBlindly g p) :
    ReadsBlindly g fun ts ↦ ps.findSome? fun p ↦ p ts := by
  intro ts
  dsimp only
  induction ps with
  | nil => rfl
  | cons p ps ih =>
    rw [List.forall_mem_cons] at h
    rw [List.findSome?_cons, List.findSome?_cons, h.1]
    cases p ts with
    | none => exact ih h.2
    | some r => rfl

theorem visibleReaders_blind (hcode : code.IsBlind) :
    ∀ p ∈ visibleReaders code, ReadsBlindly Reading.unplaced p := by
  intro p hp
  simp only [visibleReaders, List.mem_cons, List.not_mem_nil, or_false] at hp
  rcases hp with rfl | rfl | rfl | rfl | rfl | rfl | rfl | rfl | rfl | rfl | rfl | rfl
  · exact readModule_blind hcode
  · exact readStruct_blind hcode
  · exact readUnion_blind hcode
  · exact readEnum_blind hcode
  · exact readTypeAlias_blind hcode
  · exact readFunction_blind hcode
  · exact readTrait_blind hcode
  · exact readConstant_blind hcode
  · exact readStatic_blind hcode
  · exact readExternCrate_blind
  · exact readForeignModule_blind hcode
  · exact readUse_blind

theorem bareReaders_blind (hcode : code.IsBlind) :
    ∀ p ∈ bareReaders code, ReadsBlindly Reading.unplaced p := by
  intro p hp
  simp only [bareReaders, List.mem_cons, List.not_mem_nil, or_false] at hp
  rcases hp with rfl | rfl | rfl | rfl | rfl
  · exact readImplementation_blind hcode
  · exact readAssociatedType_blind hcode
  · exact readMacroDefinition_blind
  · exact readLet_blind hcode
  · exact fun ts ↦ map_blind (sign_blind ";" ts) fun _ ↦ rfl

theorem startOf_unplaced (ts : List Tree) :
    (((ts.map Tree.unplaced).head?).map Tree.start).getD 0 = 0 := by
  cases ts with
  | nil => rfl
  | cons t ts => exact Tree.start_unplaced t

theorem namedItem_blind (hcode : code.IsBlind) : ReadsBlindly Item.unplaced (namedItem code) := by
  intro ts
  rw [namedItem, namedItem, visibility?_blind, startOf_unplaced]
  have hmake (isPublic : Bool) (r : Reading × List Tree) :
      ((⟨r.1.2.unplaced, r.1.1, isPublic,
          textOf (consumed (ts.map Tree.unplaced) (r.2.map Tree.unplaced)), 0⟩,
        r.2.map Tree.unplaced) : Item × List Tree) =
      Prod.map Item.unplaced (List.map Tree.unplaced)
        (⟨r.1.2, r.1.1, isPublic, textOf (consumed ts r.2), (ts.head?.map Tree.start).getD 0⟩,
          r.2) := by
    rw [textOf_consumed_unplaced]
    rfl
  cases visibility? ts with
  | some r => exact map_blind (findSome?_blind (visibleReaders_blind hcode) r.2) (hmake r.1)
  | none =>
    refine map_blind (g := Prod.map Reading.unplaced (List.map Tree.unplaced))
      (findSome?_blind (fun p hp ↦ ?_) ts) (hmake false)
    rw [List.mem_append] at hp
    exact hp.elim (visibleReaders_blind hcode p) (bareReaders_blind hcode p)

theorem beginsBlock_blind : TestsBlindly beginsBlock := by
  intro ts
  rw [beginsBlock, beginsBlock, isSome_blind (oneWord_blind blockWords ts),
    isSome_blind (group_blind "\x7b" ts),
    isSome_blind (bind_blind (lifetime_blind ts) (sign_blind ":"))]

theorem valueStatement_blind (hcode : code.IsBlind) :
    ReadsBlindly Item.unplaced (valueStatement code) := by
  intro ts
  have hmake (body : ItemBody) (rest : List Tree) :
      some ((⟨body.unplaced, none, false,
          textOf (consumed (ts.map Tree.unplaced) (rest.map Tree.unplaced)), 0⟩,
        rest.map Tree.unplaced) : Item × List Tree) =
      (some (⟨body, none, false, textOf (consumed ts rest), (ts.head?.map Tree.start).getD 0⟩,
        rest)).map (Prod.map Item.unplaced (List.map Tree.unplaced)) := by
    rw [textOf_consumed_unplaced]
    rfl
  have hvalue : (do sign ";" (← code.value (ts.map Tree.unplaced))) =
      (do sign ";" (← code.value ts)).map (List.map Tree.unplaced) :=
    bind_blind (hcode.value ts) (sign_blind ";")
  rw [valueStatement, valueStatement, isSome_blind (definitionWord_blind ts), startOf_unplaced,
    macroCall_blind, hvalue, beginsBlock_blind]
  refine ite_blind (fun _ ↦ rfl) fun _ ↦ ?_
  cases macroCall ts with
  | some r =>
    obtain ⟨call, rest⟩ := r
    dsimp only [Option.map_some, Prod.map]
    rw [sign_blind]
    cases sign ";" rest with
    | some rest' => exact hmake (.expression (some call)) rest'
    | none =>
      cases (do sign ";" (← code.value ts)) with
      | some rest' => exact hmake (.expression none) rest'
      | none => exact hmake (.macroCall call) rest
  | none =>
    refine bind_blind (hcode.value ts) fun rest ↦ ?_
    rw [sign_blind]
    cases sign ";" rest with
    | some rest' => exact hmake (.expression none) rest'
    | none => exact ite_blind (fun _ ↦ hmake (.expression none) rest) fun _ ↦ rfl

theorem interpreterLine_blind : ReadsBlindly Item.unplaced interpreterLine := by
  rintro (_ | ⟨_ | _, rest⟩)
  · rfl
  · exact ite_blind (fun _ ↦ rfl) fun _ ↦ rfl
  · rfl

theorem entry_blind (hcode : code.IsBlind) :
    ReadsBlindly (List.map Entry.unplacedItem) (entry code) := by
  intro ts
  have hmake (e : Entry Item) (rest : List Tree) :
      ((commentsBefore ts).map Entry.unplacedItem ++ [e.unplacedItem], rest.map Tree.unplaced) =
        Prod.map (List.map Entry.unplacedItem) (List.map Tree.unplaced)
          (commentsBefore ts ++ [e], rest) := by
    rw [Prod.map, List.map_append]
    rfl
  rw [entry, entry, innerAttribute_blind hcode,
    commentsBefore_blind Entry.unplacedItem fun _ ↦ rfl]
  cases innerAttribute code ts with
  | some r => exact congrArg some (hmake (.innerAttribute r.1) r.2)
  | none =>
    dsimp only [Option.map_none]
    rw [outerAttribute_blind hcode]
    cases outerAttribute code ts with
    | some r => exact congrArg some (hmake (.outerAttribute r.1) r.2)
    | none =>
      exact map_blind (either_blind interpreterLine_blind (either_blind (namedItem_blind hcode)
        (valueStatement_blind hcode)) ts) fun r ↦ hmake (.item r.1) r.2

theorem entriesFuel_blind (hcode : code.IsBlind) (fuel : Nat) (ts : List Tree) :
    entriesFuel code fuel (ts.map Tree.unplaced) =
      (entriesFuel code fuel ts).map (List.map Entry.unplacedItem) := by
  induction fuel generalizing ts with
  | zero => cases ts <;> rfl
  | succ fuel ih =>
    cases ts with
    | nil => rfl
    | cons t ts =>
      exact bind_blind (entry_blind hcode (t :: ts)) fun r ↦
        map_blind (ih r.2) fun _ ↦ List.map_append.symm

theorem entries_blind (hcode : code.IsBlind) (ts : List Tree) :
    entries code (ts.map Tree.unplaced) = (entries code ts).map (List.map Entry.unplacedItem) := by
  rw [entries, entries, List.length_map, entriesFuel_blind hcode]

end Grammar
end Rust
end NodeSchema
