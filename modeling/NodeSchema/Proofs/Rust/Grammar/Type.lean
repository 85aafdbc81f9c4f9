import NodeSchema.Proofs.Rust.Grammar.Basic
import NodeSchema.Rust.Grammar.Type

/-!
# Reading types without looking at places
-/

set_option autoImplicit false

namespace NodeSchema
namespace Rust
namespace Grammar

/-- The code does not look at places. -/
structure Code.IsBlind (code : Code) : Prop where
  value : SkipsBlindly code.value
  pattern : SkipsBlindly code.pattern
  block : TestsBlindly code.block
  parameters : TestsBlindly code.parameters
  declarations : TestsBlindly code.declarations

/-! ## Before types -/

theorem lifetime_blind : SkipsBlindly lifetime := fun ts ↦
  bind_blind (sign_blind _ ts) (skip_blind anyWord_blind)

theorem angleListFuel_blind {name : Skipper} (h : SkipsBlindly name) (fuel : Nat) :
    SkipsBlindly (angleListFuel name fuel) := by
  induction fuel with
  | zero => exact fun _ ↦ rfl
  | succ fuel ih =>
    intro ts
    refine bind_blind (h ts) fun rest ↦ ?_
    rw [sign_blind]
    cases sign "," rest with
    | none => exact sign_blind ">" rest
    | some after => exact or_blind (sign_blind ">" after) (ih after)

theorem boundLifetimes_blind : SkipsBlindly boundLifetimes := by
  intro ts
  refine bind_blind (sign_blind "<" ts) fun rest ↦ ?_
  rw [List.length_map]
  exact angleListFuel_blind lifetime_blind ts.length rest

theorem looseBound_blind : SkipsBlindly looseBound := by
  refine firstOf_blind fun p hp ↦ ?_
  rw [List.mem_cons, List.mem_singleton] at hp
  rcases hp with rfl | rfl
  · exact lifetime_blind
  · intro ts
    refine bind_blind (word_blind "use" ts) fun rest ↦
      bind_blind (sign_blind "<" rest) fun inside ↦ or_blind ?_ ?_
    · rw [List.length_map]
      refine angleListFuel_blind (firstOf_blind fun p hp ↦ ?_) ts.length inside
      rw [List.mem_cons, List.mem_singleton] at hp
      rcases hp with rfl | rfl
      · exact lifetime_blind
      · exact skip_blind anyWord_blind
    · rw [optionally_blind (sign_blind ",")]
      exact sign_blind ">" _

theorem modifier_blind : SkipsBlindly modifier := by
  refine firstOf_blind fun p hp ↦ ?_
  rw [List.mem_cons, List.mem_singleton] at hp
  rcases hp with rfl | rfl
  · exact oneWord_blind functionModifiers
  · intro ts
    refine bind_blind (word_blind "extern" ts) fun rest ↦ ?_
    rcases rest with _ | ⟨_ | _, rest⟩
    · rfl
    · exact ite_blind (fun _ ↦ rfl) fun _ ↦ rfl
    · rfl

theorem literal_blind : SkipsBlindly literal := by
  rintro (_ | ⟨_ | _, rest⟩)
  · rfl
  · exact ite_blind (fun _ ↦ rfl) fun _ ↦ rfl
  · rfl

theorem metavariable_blind : SkipsBlindly metavariable := fun ts ↦
  bind_blind (sign_blind "$" ts) fun rest ↦ bind_blind (anyWord_blind rest) fun _ ↦
    ite_blind (fun _ ↦ rfl) fun _ ↦ rfl

/-! ## Types -/

/-- The readers of types do not look at places, given this much fuel. -/
structure TypesBlind (code : Code) (fuel : Nat) : Prop where
  type : ReadsBlindly id (typeFuel code fuel)
  added : SkipsBlindly (addedFuel code fuel)
  bounds : SkipsBlindly (boundsFuel code fuel)
  trait : ReadsBlindly id (traitFuel code fuel)
  simpleType : ReadsBlindly id (simpleTypeFuel code fuel)
  bracketed : SkipsBlindly (bracketedFuel code fuel)
  path (start : List Tree) (stem : Stem) (arguments : List TypeNode) (ts : List Tree) :
    pathFuel code fuel (start.map Tree.unplaced) stem arguments (ts.map Tree.unplaced) =
      (pathFuel code fuel start stem arguments ts).map (Prod.map id (List.map Tree.unplaced))
  returns : SkipsBlindly (returnsFuel code fuel)
  arguments : ReadsBlindly id (argumentsFuel code fuel)
  argument : ReadsBlindly id (argumentFuel code fuel)
  plainArgument : ReadsBlindly id (plainArgumentFuel code fuel)
  types (ts : List Tree) :
    typesFuel code fuel (ts.map Tree.unplaced) = (typesFuel code fuel ts).map id
  parameters : SkipsBlindly (parametersFuel code fuel)
  parameterList : SkipsBlindly (parameterListFuel code fuel)
  parameter : SkipsBlindly (parameterFuel code fuel)

variable {code : Code} {fuel : Nat}

/-- The bounds that follow the first one of an `impl` type, which stands at the front of `after`. -/
def implBounds (code : Code) (fuel : Nat) (start after rest : List Tree) :
    Option (TypeNode × List Tree) :=
  match after.head?, sign "+" rest with
  | _, some added => do
    let rest' ← addedFuel code fuel added
    some (.other (textOf (consumed start rest')), rest')
  | some (.leaf m), none =>
    if m.isMark "?" then some (.other (textOf (consumed start rest)), rest) else none
  | _, none => none

/-- What an `impl` type has after its parameters. -/
def implType (code : Code) (fuel : Nat) (start after : List Tree) :
    Option (TypeNode × List Tree) :=
  match traitFuel code fuel after with
  | some (_, rest) => some (.other (textOf (consumed start rest)), rest)
  | none =>
    match looseBound after with
    | some rest => implBounds code fuel start after rest
    | none => do
      let rest ← (simpleTypeFuel code fuel after).map Prod.snd
      implBounds code fuel start after rest

/-- A type as a generic argument, or a name that is given one. -/
def bindingOrTypeFuel (code : Code) (fuel : Nat) : Parser TypeNode := fun ts => do
  let (t, rest) ← typeFuel code fuel ts
  match t, sign "=" rest with
  | .path text _, some value =>
    if (segmentsOf text).length = 1 then
      let (_, rest') ← typeFuel code fuel value
      some (.argument (textOf (consumed ts rest')), rest')
    else some (t, rest)
  | _, _ => some (t, rest)

/-- What may follow the sign. -/
def afterSign (text : String) (next : Skipper) : Skipper := fun ts =>
  match sign text ts with
  | none => some ts
  | some after => next after

theorem afterSign_blind {next : Skipper} (text : String) (h : SkipsBlindly next) :
    SkipsBlindly (afterSign text next) := by
  intro ts
  rw [afterSign, afterSign, sign_blind]
  cases sign text ts with
  | none => rfl
  | some after => exact h after

namespace TypesBlind

theorem type_succ (h : TypesBlind code fuel) : ReadsBlindly id (typeFuel code (fuel + 1)) := by
  intro ts
  rw [typeFuel, typeFuel, looseBound_blind]
  cases looseBound ts with
  | some rest =>
    exact bind_blind (sign_blind "+" rest) fun after ↦ bind_blind (h.added after) fun rest' ↦
      text_blind TypeNode.other ts rest'
  | none =>
    refine bind_blind (h.simpleType ts) fun (t, rest) ↦ ?_
    dsimp only [Prod.map]
    rw [sign_blind]
    cases sign "+" rest with
    | none => rfl
    | some after =>
      exact bind_blind (h.added after) fun rest' ↦ text_blind TypeNode.other ts rest'

theorem added_succ (h : TypesBlind code fuel) : SkipsBlindly (addedFuel code (fuel + 1)) := by
  intro ts
  have hmore := afterSign_blind "+" h.added
  rw [addedFuel, addedFuel, looseBound_blind]
  cases looseBound ts with
  | some rest => exact hmore rest
  | none => exact bind_blind (snd_blind (h.simpleType ts)) hmore

theorem bounds_succ (h : TypesBlind code fuel) : SkipsBlindly (boundsFuel code (fuel + 1)) := by
  intro ts
  have hmore := afterSign_blind "+" h.bounds
  rw [boundsFuel, boundsFuel, looseBound_blind, word_blind]
  cases looseBound ts with
  | some rest => exact hmore rest
  | none =>
    cases word "for" ts with
    | none => exact bind_blind (snd_blind (h.simpleType ts)) hmore
    | some after =>
      exact bind_blind (h.parameters after) fun after' ↦
        bind_blind (snd_blind (h.simpleType after')) hmore

theorem trait_succ (h : TypesBlind code fuel) : ReadsBlindly id (traitFuel code (fuel + 1)) := by
  intro ts
  rcases ts with _ | ⟨t | ⟨o, body, c⟩, rest⟩
  · rw [List.map_nil, traitFuel]
    rfl
  · have hmeta : (metavariable ((Tree.leaf t :: rest).map Tree.unplaced) >>= sign "::").isSome =
        (metavariable (.leaf t :: rest) >>= sign "::").isSome := by
      rw [bind_blind (metavariable_blind _) (sign_blind "::"), Option.isSome_map]
    rw [List.map_cons, Tree.unplaced, traitFuel, traitFuel]
    rw [List.map_cons, Tree.unplaced] at hmeta
    rw [hmeta]
    refine ite_blind (fun _ ↦ bind_blind (h.path (.leaf t :: rest) _ _ rest) fun r ↦
      ite_blind (fun _ ↦ rfl) fun _ ↦ rfl) fun _ ↦ ?_
    exact ite_blind (fun _ ↦ bind_blind (h.simpleType (.leaf t :: rest)) fun r ↦
      ite_blind (fun _ ↦ rfl) fun _ ↦ rfl) fun _ ↦ rfl
  · rw [List.map_cons, Tree.unplaced, traitFuel, traitFuel, isEmpty_unplacedAll]
    exact ite_blind (fun _ ↦ bind_blind (h.simpleType (.group o body c :: rest)) fun r ↦
      ite_blind (fun _ ↦ rfl) fun _ ↦ rfl) fun _ ↦ rfl

theorem bracketed_succ (h : TypesBlind code fuel) :
    SkipsBlindly (bracketedFuel code (fuel + 1)) := by
  intro ts
  rw [bracketedFuel, bracketedFuel]
  refine bind_blind (h.type ts) fun r ↦ ?_
  obtain ⟨_, rest⟩ := r
  dsimp only [Prod.map]
  rw [word_blind]
  cases word "as" rest with
  | none => exact sign_blind ">" rest
  | some after => exact bind_blind (h.type after) fun r ↦ sign_blind ">" r.2

theorem returns_succ (h : TypesBlind code fuel) : SkipsBlindly (returnsFuel code (fuel + 1)) := by
  intro ts
  rw [returnsFuel, returnsFuel, sign_blind]
  cases sign "->" ts with
  | none => rfl
  | some after => exact snd_blind (h.type after)

theorem arguments_succ (h : TypesBlind code fuel) :
    ReadsBlindly id (argumentsFuel code (fuel + 1)) := by
  intro ts
  rw [argumentsFuel, argumentsFuel]
  refine bind_blind (h.argument ts) fun r ↦ ?_
  obtain ⟨as, rest⟩ := r
  dsimp only [Prod.map]
  rw [sign_blind]
  cases sign "," rest with
  | none => exact bind_blind (sign_blind ">" rest) fun _ ↦ rfl
  | some after =>
    dsimp only [Option.map_some]
    rw [sign_blind]
    cases sign ">" after with
    | none => exact bind_blind (h.arguments after) fun _ ↦ rfl
    | some rest' => rfl

theorem argument_succ (h : TypesBlind code fuel) :
    ReadsBlindly id (argumentFuel code (fuel + 1)) := by
  intro ts
  rw [argumentFuel, argumentFuel]
  refine bind_blind (h.plainArgument ts) fun r ↦ ?_
  obtain ⟨a, rest⟩ := r
  dsimp only [Prod.map]
  rw [sign_blind, sign_blind]
  cases sign "::" rest with
  | some => rfl
  | none =>
    cases sign ":" rest with
    | none => rfl
    | some after =>
      exact bind_blind (h.bounds after) fun rest' ↦ text_blind (fun text ↦ [a, .argument text]) _ _

theorem types_succ (h : TypesBlind code fuel) (ts : List Tree) :
    typesFuel code (fuel + 1) (ts.map Tree.unplaced) =
      (typesFuel code (fuel + 1) ts).map id := by
  rw [typesFuel, typesFuel]
  refine bind_blind (h.type ts) fun r ↦ ?_
  obtain ⟨t, rest⟩ := r
  cases rest with
  | nil => rfl
  | cons u rest =>
    refine bind_blind (sign_blind "," (u :: rest)) fun after ↦ ?_
    cases after with
    | nil => rfl
    | cons v after => exact map_blind (h.types (v :: after)) fun _ ↦ rfl

theorem parameters_succ (h : TypesBlind code fuel) :
    SkipsBlindly (parametersFuel code (fuel + 1)) := by
  intro ts
  rw [parametersFuel, parametersFuel]
  exact bind_blind (sign_blind "<" ts) h.parameterList

theorem parameterList_succ (h : TypesBlind code fuel) :
    SkipsBlindly (parameterListFuel code (fuel + 1)) := by
  intro ts
  rw [parameterListFuel, parameterListFuel]
  refine bind_blind (h.parameter ts) fun rest ↦ ?_
  rw [sign_blind]
  cases sign "," rest with
  | none => exact sign_blind ">" rest
  | some after =>
    dsimp only [Option.map_some]
    rw [sign_blind]
    cases sign ">" after with
    | none => exact h.parameterList after
    | some rest' => rfl

theorem parameter_succ (hcode : code.IsBlind) (h : TypesBlind code fuel) :
    SkipsBlindly (parameterFuel code (fuel + 1)) := by
  intro ts
  have hattribute : SkipsBlindly fun ts ↦ sign "#" ts >>= groupThat "[" fun _ ↦ true :=
    fun ts ↦ bind_blind (sign_blind "#" ts) (groupThat_blind "[" fun _ ↦ rfl)
  have hdefault : SkipsBlindly (firstOf [groupThat "\x7b" code.block, literal,
      fun ts ↦ sign "-" ts >>= literal, skip anyWord]) := by
    refine firstOf_blind fun p hp ↦ ?_
    simp only [List.mem_cons, List.not_mem_nil, or_false] at hp
    rcases hp with rfl | rfl | rfl | rfl
    · exact groupThat_blind "\x7b" hcode.block
    · exact literal_blind
    · exact fun ts ↦ bind_blind (sign_blind "-" ts) literal_blind
    · exact skip_blind anyWord_blind
  have htype : SkipsBlindly fun after ↦ (typeFuel code fuel after).map Prod.snd :=
    fun after ↦ snd_blind (h.type after)
  have hvalue := afterSign_blind "=" htype
  rw [parameterFuel, parameterFuel]
  have hattribute := hattribute ts
  dsimp only at hattribute
  rw [hattribute]
  cases sign "#" ts >>= groupThat "[" fun _ ↦ true with
  | some rest => exact h.parameter rest
  | none =>
    dsimp only [Option.map_none]
    rw [metavariable_blind]
    cases metavariable ts with
    | some rest => rfl
    | none =>
      dsimp only [Option.map_none]
      rw [lifetime_blind]
      cases lifetime ts with
      | some rest =>
        dsimp only [Option.map_some]
        rw [sign_blind]
        cases sign ":" rest with
        | none => rfl
        | some after => exact h.bounds after
      | none =>
        refine bind_blind (anyWord_blind ts) fun r ↦ ite_blind (fun _ ↦ ?_) fun _ ↦ ?_
        · refine bind_blind (anyWord_blind r.2) fun r ↦ bind_blind (sign_blind ":" r.2) fun after ↦
            bind_blind (h.type after) fun r ↦ ?_
          obtain ⟨_, rest⟩ := r
          dsimp only [Prod.map]
          rw [sign_blind]
          cases sign "=" rest with
          | none => rfl
          | some after => exact hdefault after
        · obtain ⟨t, rest⟩ := r
          dsimp only [Prod.map]
          rw [sign_blind]
          cases sign ":" rest with
          | none => exact hvalue rest
          | some after => exact bind_blind (h.bounds after) hvalue

theorem path_succ (hcode : code.IsBlind) (h : TypesBlind code fuel) (start : List Tree)
    (stem : Stem) (arguments : List TypeNode) (ts : List Tree) :
    pathFuel code (fuel + 1) (start.map Tree.unplaced) stem arguments (ts.map Tree.unplaced) =
      (pathFuel code (fuel + 1) start stem arguments ts).map
        (Prod.map id (List.map Tree.unplaced)) := by
  rw [pathFuel, pathFuel, sign_blind]
  cases sign "::" ts with
  | some after =>
    dsimp only [Option.map_some]
    rw [anyWord_blind]
    cases anyWord after with
    | some r => exact h.path start _ [] r.2
    | none =>
      exact bind_blind (sign_blind "<" after) fun inside ↦ bind_blind (h.arguments inside) fun r ↦
        h.path start .opening [] r.2
  | none =>
    dsimp only [Option.map_none]
    rw [textOf_consumed_unplaced]
    rcases ts with _ | ⟨t | ⟨o, body, c⟩, rest⟩
    · exact ite_blind (fun _ ↦ rfl) fun _ ↦ rfl
    · refine ite_blind (fun _ ↦ bind_blind (h.arguments rest) fun r ↦ ?_) fun _ ↦
        ite_blind (fun _ ↦ ?_) fun _ ↦ ite_blind (fun _ ↦ rfl) fun _ ↦ rfl
      · obtain ⟨as, rest'⟩ := r
        dsimp only [Prod.map]
        rw [sign_blind]
        cases sign "::" rest' with
        | none => rfl
        | some after => exact h.path start .generic as rest'
      · rw [anyGroup_blind]
        cases anyGroup rest with
        | none => exact ite_blind (fun _ ↦ rfl) fun _ ↦ rfl
        | some r =>
          show some (TypeNode.macroCall _ r.1.unplaced.joined.unplaced, _) = _
          rw [Tree.joined_unplaced, Tree.unplaced_unplaced]
          rfl
    · rw [List.map_cons, Tree.unplaced]
      dsimp only
      rw [hcode.parameters.unplacedAll]
      exact ite_blind (fun _ ↦ bind_blind (h.returns rest) fun rest' ↦
        text_blind TypeNode.other start rest') fun _ ↦ ite_blind (fun _ ↦ rfl) fun _ ↦ rfl

theorem bindingOrType (h : TypesBlind code fuel) :
    ReadsBlindly id (bindingOrTypeFuel code fuel) := by
  intro ts
  refine bind_blind (h.type ts) fun r ↦ ?_
  obtain ⟨t, rest⟩ := r
  dsimp only [Prod.map, id]
  rw [sign_blind]
  cases t with
  | path text arguments =>
    cases sign "=" rest with
    | none => rfl
    | some value =>
      exact ite_blind (fun _ ↦ bind_blind (h.type value) fun r ↦
        text_blind TypeNode.argument ts r.2) fun _ ↦ rfl
  | _ => rfl

theorem plainArgument_succ (hcode : code.IsBlind) (h : TypesBlind code fuel) :
    ReadsBlindly id (plainArgumentFuel code (fuel + 1)) := by
  intro ts
  have hargument (rest : List Tree) := text_blind TypeNode.argument ts rest
  have hbinding := h.bindingOrType ts
  have hblock : SkipsBlindly fun ts ↦ sign ":" ts >>= groupThat "\x7b" code.block :=
    fun ts ↦ bind_blind (sign_blind ":" ts) (groupThat_blind "\x7b" hcode.block)
  rw [plainArgumentFuel, plainArgumentFuel, literal_blind]
  cases literal ts with
  | some rest => exact hargument rest
  | none =>
    dsimp only [Option.map_none]
    rw [groupThat_blind "\x7b" hcode.block]
    cases groupThat "\x7b" code.block ts with
    | some rest => exact hargument rest
    | none =>
      dsimp only [Option.map_none]
      rw [lifetime_blind]
      cases lifetime ts with
      | none => exact hbinding
      | some rest =>
        dsimp only [Option.map_some]
        have hblock := hblock rest
        dsimp only at hblock
        rw [sign_blind "+", hblock]
        cases sign "+" rest with
        | some _ => exact hbinding
        | none =>
          cases sign ":" rest >>= groupThat "\x7b" code.block with
          | some rest' => exact hargument rest'
          | none => exact hargument rest

theorem implBounds (h : TypesBlind code fuel) (start after rest : List Tree) :
    Grammar.implBounds code fuel (start.map Tree.unplaced) (after.map Tree.unplaced)
      (rest.map Tree.unplaced) =
        (Grammar.implBounds code fuel start after rest).map
          (Prod.map id (List.map Tree.unplaced)) := by
  rw [Grammar.implBounds, Grammar.implBounds, sign_blind]
  cases sign "+" rest with
  | some added =>
    rcases after with _ | ⟨_ | _, _⟩
    all_goals exact bind_blind (h.added added) fun r ↦ text_blind TypeNode.other start r
  | none =>
    rcases after with _ | ⟨_ | _, _⟩
    · rfl
    · exact ite_blind (fun _ ↦ text_blind TypeNode.other start rest) fun _ ↦ rfl
    · rfl

theorem implType (h : TypesBlind code fuel) (start after : List Tree) :
    Grammar.implType code fuel (start.map Tree.unplaced) (after.map Tree.unplaced) =
      (Grammar.implType code fuel start after).map (Prod.map id (List.map Tree.unplaced)) := by
  rw [Grammar.implType, Grammar.implType, h.trait, looseBound_blind]
  cases traitFuel code fuel after with
  | some r => exact text_blind TypeNode.other start r.2
  | none =>
    cases looseBound after with
    | some r => exact h.implBounds start after r
    | none => exact bind_blind (snd_blind (h.simpleType after)) (h.implBounds start after)

theorem simpleType_succ (hcode : code.IsBlind) (h : TypesBlind code fuel) :
    ReadsBlindly id (simpleTypeFuel code (fuel + 1)) := by
  intro ts
  have hother (rest : List Tree) := text_blind TypeNode.other ts rest
  rcases ts with _ | ⟨t | ⟨o, body, c⟩, rest⟩
  · rw [List.map_nil, simpleTypeFuel]
    rfl
  · rw [List.map_cons, Tree.unplaced, simpleTypeFuel, simpleTypeFuel]
    refine ite_blind (fun _ ↦ ?_) fun _ ↦ ?_
    · refine ite_blind (fun _ ↦ ?_) fun _ ↦ ite_blind (fun _ ↦ ?_) fun _ ↦
        ite_blind (fun _ ↦ ?_) fun _ ↦ ite_blind (fun _ ↦ rfl) fun _ ↦
        ite_blind (fun _ ↦ ?_) fun _ ↦ h.path (.leaf t :: rest) _ [] rest
      · rw [word_blind]
        cases word "for" rest with
        | none => exact h.implType (.leaf t :: rest) rest
        | some r =>
          dsimp only [Option.map_some]
          rw [h.parameters]
          cases parametersFuel code fuel r with
          | none => exact h.implType (.leaf t :: rest) rest
          | some after => exact h.implType (.leaf t :: rest) after
      · rw [word_blind]
        cases word "for" rest with
        | some r =>
          exact bind_blind (h.parameters r) fun after ↦ bind_blind (h.simpleType after) fun r ↦
            hother r.2
        | none => exact bind_blind (h.trait rest) fun r ↦ hother r.2
      · refine bind_blind (boundLifetimes_blind rest) fun after ↦ ?_
        rw [h.trait]
        rcases traitFuel code fuel after with _ | ⟨_ | _ | _ | _ | _ | _, rest'⟩
        all_goals first | rfl | exact hother rest'
      · have hmodifiers := many_blind modifier_blind (.leaf t :: rest)
        rw [List.map_cons, Tree.unplaced] at hmodifiers
        rw [hmodifiers, word_blind]
        cases word "fn" (many modifier (.leaf t :: rest)) with
        | some after =>
          exact bind_blind (groupThat_blind "(" hcode.parameters after) fun rest' ↦
            bind_blind (h.returns rest') fun rest'' ↦ hother rest''
        | none => exact ite_blind (fun _ ↦ h.path (.leaf t :: rest) _ _ rest) fun _ ↦ rfl
    · refine ite_blind (fun _ ↦ ?_) fun _ ↦ ite_blind (fun _ ↦ ?_) fun _ ↦
        ite_blind (fun _ ↦ hother rest) fun _ ↦ ite_blind (fun _ ↦ ?_) fun _ ↦
        ite_blind (fun _ ↦ ?_) fun _ ↦ ite_blind (fun _ ↦ ?_) fun _ ↦
        ite_blind (fun _ ↦ h.path (.leaf t :: rest) .opening [] (.leaf t :: rest)) fun _ ↦ rfl
      · have hafter : optionally (word "mut") (optionally lifetime (rest.map Tree.unplaced)) =
            (optionally (word "mut") (optionally lifetime rest)).map Tree.unplaced := by
          rw [optionally_blind lifetime_blind, optionally_blind (word_blind "mut")]
        rw [hafter]
        exact bind_blind (h.simpleType _) fun r ↦ hother r.2
      · exact bind_blind (oneWord_blind _ rest) fun after ↦ bind_blind (h.simpleType after) fun r ↦
          hother r.2
      · exact bind_blind (h.simpleType rest) fun r ↦ hother r.2
      · refine bind_blind (metavariable_blind (.leaf t :: rest)) fun rest' ↦ ?_
        rw [sign_blind]
        cases sign "::" rest' with
        | none => exact hother rest'
        | some _ => exact h.path (.leaf t :: rest) .opening [] rest'
      · exact bind_blind (h.bracketed rest) fun rest' ↦
          h.path (.leaf t :: rest) .opening [] rest'
  · have htypes := h.types body
    have htype := h.type body
    rw [← Tree.unplacedAll_eq_map] at htypes htype
    rw [List.map_cons, Tree.unplaced, simpleTypeFuel, simpleTypeFuel, isEmpty_unplacedAll]
    refine ite_blind (fun _ ↦ ite_blind (fun _ ↦ rfl) fun _ ↦ bind_blind htypes fun _ ↦ rfl)
      fun _ ↦ ite_blind (fun _ ↦ bind_blind htype fun r ↦ ?_) fun _ ↦ rfl
    obtain ⟨_, after⟩ := r
    cases after with
    | nil => exact hother rest
    | cons u after =>
      refine bind_blind (sign_blind ";" (u :: after)) fun value ↦
        bind_blind (hcode.value value) fun done ↦ ?_
      rw [List.isEmpty_map]
      exact ite_blind (fun _ ↦ hother rest) fun _ ↦ rfl

end TypesBlind

theorem typesBlind (hcode : code.IsBlind) (fuel : Nat) : TypesBlind code fuel := by
  induction fuel with
  | zero =>
    exact ⟨fun _ ↦ rfl, fun _ ↦ rfl, fun _ ↦ rfl, fun _ ↦ rfl, fun _ ↦ rfl, fun _ ↦ rfl,
      fun _ _ _ _ ↦ rfl, fun _ ↦ rfl, fun _ ↦ rfl, fun _ ↦ rfl, fun _ ↦ rfl, fun _ ↦ rfl,
      fun _ ↦ rfl, fun _ ↦ rfl, fun _ ↦ rfl⟩
  | succ fuel ih =>
    exact
      { type := ih.type_succ
        added := ih.added_succ
        bounds := ih.bounds_succ
        trait := ih.trait_succ
        simpleType := ih.simpleType_succ hcode
        bracketed := ih.bracketed_succ
        path := ih.path_succ hcode
        returns := ih.returns_succ
        arguments := ih.arguments_succ
        argument := ih.argument_succ
        plainArgument := ih.plainArgument_succ hcode
        types := ih.types_succ
        parameters := ih.parameters_succ
        parameterList := ih.parameterList_succ
        parameter := ih.parameter_succ hcode }

theorem typeFuelOf_unplaced (ts : List Tree) :
    typeFuelOf (ts.map Tree.unplaced) = typeFuelOf ts := by
  rw [typeFuelOf, typeFuelOf, Tree.sizeList_unplaced]

theorem type_blind (hcode : code.IsBlind) : ReadsBlindly id (type code) := by
  intro ts
  rw [type, type, typeFuelOf_unplaced]
  exact (typesBlind hcode _).type ts

theorem simpleType_blind (hcode : code.IsBlind) : ReadsBlindly id (simpleType code) := by
  intro ts
  rw [simpleType, simpleType, typeFuelOf_unplaced]
  exact (typesBlind hcode _).simpleType ts

theorem bounds_blind (hcode : code.IsBlind) : SkipsBlindly (bounds code) := by
  intro ts
  rw [bounds, bounds, typeFuelOf_unplaced]
  exact (typesBlind hcode _).bounds ts

theorem typeParameters_blind (hcode : code.IsBlind) : SkipsBlindly (typeParameters code) := by
  intro ts
  rw [typeParameters, typeParameters, typeFuelOf_unplaced]
  exact (typesBlind hcode _).parameters ts

theorem typeArguments_blind (hcode : code.IsBlind) : SkipsBlindly (typeArguments code) := by
  intro ts
  rw [typeArguments, typeArguments, typeFuelOf_unplaced]
  exact snd_blind ((typesBlind hcode _).arguments ts)

end Grammar
end Rust
end NodeSchema
