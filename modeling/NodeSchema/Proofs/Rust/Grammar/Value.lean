import NodeSchema.Proofs.Rust.Grammar.Item
import NodeSchema.Rust.Grammar.File

/-!
# Reading values without looking at places
-/

set_option autoImplicit false

namespace NodeSchema
namespace Rust
namespace Grammar

variable {inner : Code}

theorem rangeSign_blind : SkipsBlindly rangeSign := by
  refine firstOf_blind fun p hp ↦ ?_
  obtain ⟨text, -, rfl⟩ := List.mem_map.mp hp
  exact sign_blind text

theorem binarySign_blind : SkipsBlindly binarySign := by
  intro ts
  rw [binarySign, binarySign, isSome_blind (sign_blind "=>" ts), isSome_blind (sign_blind "->" ts)]
  refine ite_blind (fun _ ↦ rfl) fun _ ↦ firstOf_blind (fun p hp ↦ ?_) ts
  obtain ⟨text, -, rfl⟩ := List.mem_map.mp hp
  exact sign_blind text

theorem skipAttributes_blind (hcode : inner.IsBlind) (ts : List Tree) :
    skipAttributes inner (ts.map Tree.unplaced) = (skipAttributes inner ts).map Tree.unplaced := by
  rw [skipAttributes, skipAttributes, outerAttributes_blind hcode]
  rfl

theorem isCommaList_blind {p : Skipper} (h : SkipsBlindly p) : TestsBlindly (isCommaList p) :=
  fun ts ↦ isSome_blind (commaList_blind (unit_blind h) ts)

/-! ## Insides of delimiters -/

theorem value_skipAttributes_blind (hcode : inner.IsBlind) :
    SkipsBlindly fun ts ↦ inner.value (skipAttributes inner ts) := by
  intro ts
  dsimp only
  rw [skipAttributes_blind hcode, hcode.value]

theorem isValueList_blind (hcode : inner.IsBlind) : TestsBlindly (isValueList inner) :=
  isCommaList_blind (value_skipAttributes_blind hcode)

theorem isArray_blind (hcode : inner.IsBlind) : TestsBlindly (isArray inner) := by
  intro ts
  have hrepeat : (do
      let rest ← inner.value (skipAttributes inner (ts.map Tree.unplaced))
      inner.value (← sign ";" rest)) = (do
      let rest ← inner.value (skipAttributes inner ts)
      inner.value (← sign ";" rest)).map (List.map Tree.unplaced) :=
    bind_blind (value_skipAttributes_blind hcode ts) fun rest ↦
      bind_blind (sign_blind ";" rest) hcode.value
  rw [isArray, isArray, isValueList_blind hcode, hrepeat]
  exact congrArg (isValueList inner ts || ·) (isDone_blind _)

theorem isFieldValues_blind (hcode : inner.IsBlind) : TestsBlindly (isFieldValues inner) := by
  refine isCommaList_blind fun ts ↦ ?_
  dsimp only
  rw [skipAttributes_blind hcode, sign_blind]
  generalize skipAttributes inner ts = ts
  cases sign ".." ts with
  | some rest => exact hcode.value rest
  | none =>
    rcases ts with _ | ⟨t | ⟨o, body, c⟩, rest⟩
    · rfl
    · refine ite_blind (fun _ ↦ ?_) fun _ ↦ rfl
      rw [sign_blind, sign_blind]
      cases sign "::" rest with
      | some _ =>
        cases sign ":" rest with
        | some _ => exact ite_blind (fun _ ↦ rfl) fun _ ↦ rfl
        | none => exact ite_blind (fun _ ↦ rfl) fun _ ↦ rfl
      | none =>
        cases sign ":" rest with
        | some after => exact hcode.value after
        | none => exact ite_blind (fun _ ↦ rfl) fun _ ↦ rfl
    · rfl

/-- The pattern of a field that is given its name. -/
def namedFieldPattern (inner : Code) : Skipper := fun ts => do
  let (t, rest) ← anyWord ts
  if t.isWord "ref" || t.isWord "mut" then none else inner.pattern (← sign ":" rest)

theorem namedFieldPattern_blind (hcode : inner.IsBlind) : SkipsBlindly (namedFieldPattern inner) :=
  fun ts ↦ bind_blind (anyWord_blind ts) fun r ↦ ite_blind (fun _ ↦ rfl) fun _ ↦
    bind_blind (sign_blind ":" r.2) hcode.pattern

/-- One of the patterns between the braces of a struct pattern. -/
def fieldPattern (inner : Code) : Skipper := fun ts =>
  let ts := skipAttributes inner ts
  match sign ".." ts with
  | some rest => some rest
  | none =>
    match namedFieldPattern inner ts with
    | some rest => some rest
    | none => skip anyWord (optionally (word "mut") (optionally (word "ref") ts))

theorem fieldPattern_blind (hcode : inner.IsBlind) : SkipsBlindly (fieldPattern inner) := by
  intro ts
  rw [fieldPattern, fieldPattern, skipAttributes_blind hcode]
  generalize skipAttributes inner ts = ts
  rw [sign_blind, namedFieldPattern_blind hcode, optionally_blind (word_blind "ref"),
    optionally_blind (word_blind "mut")]
  cases sign ".." ts with
  | some rest => rfl
  | none =>
    cases namedFieldPattern inner ts with
    | some rest => rfl
    | none => exact skip_blind anyWord_blind _

theorem isFieldPatterns_blind (hcode : inner.IsBlind) : TestsBlindly (isFieldPatterns inner) :=
  isCommaList_blind (fieldPattern_blind hcode)

/-- The block that an arm of a match consists of, if more follows it without a comma. -/
def armBlock (inner : Code) : Skipper := fun ts =>
  match groupThat "\x7b" inner.block ts with
  | some rest => if (sign "," rest).isSome || rest.isEmpty then none else some rest
  | none => none

/-- The end of an arm of a match, from its arrow on: what follows it, and its body with what
follows. -/
def armBody (inner : Code) : Parser (List Tree) := fun ts => do
  let body ← sign "=>" ts
  match armBlock inner body with
  | some rest =>
    match inner.value body with
    | some rest' => some (if (sign "," rest').isSome then rest' else rest, body)
    | none => some (rest, body)
  | none => (inner.value body).map fun rest => (rest, body)

/-- An arm of a match. -/
def arm (inner : Code) : Parser (List Tree) := fun ts => do
  let rest ← inner.pattern (skipAttributes inner ts)
  let rest ← match word "if" rest with
    | some after => inner.value after
    | none => some rest
  armBody inner rest

/-- There was an arm, and what follows it is arms. -/
def areArmsAfter (inner : Code) (fuel : Nat) : Option (List Tree × List Tree) → Bool
  | none => false
  | some (rest, body) =>
    match rest with
    | [] => true
    | _ =>
      match sign "," rest with
      | some after => areArmsFuel inner fuel after
      | none => if beginsBlock body then areArmsFuel inner fuel rest else false

theorem areArmsFuel_cons (fuel : Nat) (t : Tree) (ts : List Tree) :
    areArmsFuel inner (fuel + 1) (t :: ts) = areArmsAfter inner fuel (arm inner (t :: ts)) := rfl

theorem armBlock_blind (hcode : inner.IsBlind) : SkipsBlindly (armBlock inner) := by
  intro ts
  rw [armBlock, armBlock, groupThat_blind "\x7b" hcode.block]
  cases groupThat "\x7b" inner.block ts with
  | none => rfl
  | some rest =>
    dsimp only [Option.map_some]
    rw [isSome_blind (sign_blind "," rest), List.isEmpty_map]
    exact ite_blind (fun _ ↦ rfl) fun _ ↦ rfl

theorem armBody_blind (hcode : inner.IsBlind) :
    ReadsBlindly (List.map Tree.unplaced) (armBody inner) := by
  intro ts
  refine bind_blind (sign_blind "=>" ts) fun body ↦ ?_
  rw [armBlock_blind hcode, hcode.value]
  cases armBlock inner body with
  | none => exact map_blind rfl fun _ ↦ rfl
  | some rest =>
    cases inner.value body with
    | none => rfl
    | some rest' =>
      dsimp only [Option.map_some]
      rw [isSome_blind (sign_blind "," rest')]
      split <;> rfl

theorem arm_blind (hcode : inner.IsBlind) : ReadsBlindly (List.map Tree.unplaced) (arm inner) := by
  intro ts
  rw [arm, arm, skipAttributes_blind hcode]
  refine bind_blind (hcode.pattern _) fun rest ↦ ?_
  rw [word_blind]
  cases word "if" rest with
  | none => exact armBody_blind hcode rest
  | some after => exact bind_blind (hcode.value after) (armBody_blind hcode)

theorem areArmsAfter_blind {fuel : Nat} (h : TestsBlindly (areArmsFuel inner fuel))
    (r : Option (List Tree × List Tree)) :
    areArmsAfter inner fuel (r.map (Prod.map (List.map Tree.unplaced) (List.map Tree.unplaced))) =
      areArmsAfter inner fuel r := by
  rcases r with _ | ⟨_ | ⟨u, rest⟩, body⟩
  · rfl
  · rfl
  · have hsign := sign_blind "," (u :: rest)
    have hrest := h (u :: rest)
    rw [List.map_cons] at hsign hrest
    rw [Option.map_some, Prod.map, List.map_cons, areArmsAfter, areArmsAfter, hsign,
      hrest, beginsBlock_blind]
    · cases sign "," (u :: rest) with
      | none => rfl
      | some after => exact h after
    · exact List.cons_ne_nil _ _
    · exact List.cons_ne_nil _ _

theorem areArmsFuel_blind (hcode : inner.IsBlind) (fuel : Nat) :
    TestsBlindly (areArmsFuel inner fuel) := by
  intro ts
  induction fuel generalizing ts with
  | zero => cases ts <;> rfl
  | succ fuel ih =>
    cases ts with
    | nil => rfl
    | cons t ts =>
      have harm := arm_blind hcode (t :: ts)
      rw [List.map_cons] at harm ⊢
      rw [areArmsFuel_cons, areArmsFuel_cons, harm]
      exact areArmsAfter_blind ih (arm inner (t :: ts))

theorem areArms_blind (hcode : inner.IsBlind) : TestsBlindly (areArms inner) := by
  intro ts
  rw [areArms, areArms, List.length_map, areArmsFuel_blind hcode]

/-! ## Patterns -/

/-- Goes on with a path in a value. -/
def valuePathStep (inner : Code) : Skipper := fun ts => do
  let after ← sign "::" ts
  firstOf [skip anyWord, fun ts => do typeArguments inner (← sign "<" ts)] after

theorem valuePathStep_blind (hcode : inner.IsBlind) : SkipsBlindly (valuePathStep inner) := by
  intro ts
  refine bind_blind (sign_blind "::" ts) (firstOf_blind fun p hp ↦ ?_)
  rw [List.mem_cons, List.mem_singleton] at hp
  rcases hp with rfl | rfl
  · exact skip_blind anyWord_blind
  · exact fun ts ↦ bind_blind (sign_blind "<" ts) (typeArguments_blind hcode)

theorem valuePath_blind (hcode : inner.IsBlind) : SkipsBlindly (valuePath inner) := by
  intro ts
  have htype := skip_blind (type_blind hcode)
  have hmany : SkipsBlindly (fun rest ↦ some (many (valuePathStep inner) rest)) := fun rest ↦
    congrArg some (many_blind (valuePathStep_blind hcode) rest)
  have hclosed : SkipsBlindly (fun rest ↦ do
      let rest ← pathTail (← sign ">" rest)
      some (many (valuePathStep inner) rest)) := fun rest ↦
    bind_blind (sign_blind ">" rest) fun rest ↦ bind_blind (pathTail_blind rest) hmany
  rw [valuePath, valuePath, sign_blind]
  cases sign "<" ts with
  | some inside =>
    refine bind_blind (htype inside) fun rest ↦ ?_
    rw [word_blind]
    cases word "as" rest with
    | none => exact hclosed rest
    | some after => exact bind_blind (htype after) hclosed
  | none =>
    refine bind_blind (firstOf_blind (fun p hp ↦ ?_) ts) hmany
    simp only [List.mem_cons, List.not_mem_nil, or_false] at hp
    rcases hp with rfl | rfl | rfl
    · exact metavariable_blind
    · exact skip_blind anyWord_blind
    · exact pathTail_blind

theorem rangeEnd_blind (hcode : inner.IsBlind) : SkipsBlindly (rangeEnd inner) := by
  rintro (_ | ⟨t | ⟨o, body, c⟩, rest⟩)
  · rfl
  · exact ite_blind (fun _ ↦ rfl) fun _ ↦ ite_blind (fun _ ↦ literal_blind rest) fun _ ↦
      ite_blind (fun _ ↦ valuePath_blind hcode (.leaf t :: rest)) fun _ ↦ rfl
  · rfl

structure PatternsBlind (inner : Code) (fuel : Nat) : Prop where
  pattern : SkipsBlindly (patternFuel inner fuel)
  plain : SkipsBlindly (plainPatternFuel inner fuel)

/-- What may follow a literal or a name in a pattern. -/
def patternRange (inner : Code) : Skipper := fun rest =>
  match rangeSign rest with
  | some after => some ((rangeEnd inner after).getD after)
  | none => some rest

theorem rangeEnd_getD_blind (hcode : inner.IsBlind) (after : List Tree) :
    some ((rangeEnd inner (after.map Tree.unplaced)).getD (after.map Tree.unplaced)) =
      (some ((rangeEnd inner after).getD after)).map (List.map Tree.unplaced) := by
  rw [rangeEnd_blind hcode]
  cases rangeEnd inner after <;> rfl

theorem patternRange_blind (hcode : inner.IsBlind) : SkipsBlindly (patternRange inner) := by
  intro rest
  rw [patternRange, patternRange, rangeSign_blind]
  cases rangeSign rest with
  | some after => exact rangeEnd_getD_blind hcode after
  | none => rfl

theorem isCommaList_pattern_blind (hcode : inner.IsBlind) (body : List Tree) :
    isCommaList inner.pattern (Tree.unplacedAll body) = isCommaList inner.pattern body :=
  (isCommaList_blind hcode.pattern).unplacedAll body

/-- What may follow a name in a pattern: a pattern after an at sign, the call of a macro, or a
range. -/
def afterPatternName (inner : Code) (fuel : Nat) : Skipper := fun after =>
  match sign "@" after with
  | some rest => plainPatternFuel inner fuel rest
  | none =>
    match (do anyGroup (← sign "!" after)) with
    | some (_, rest) => some rest
    | none => patternRange inner after

namespace PatternsBlind

variable {fuel : Nat}

theorem afterName (hcode : inner.IsBlind) (h : PatternsBlind inner fuel) :
    SkipsBlindly (afterPatternName inner fuel) := by
  intro after
  rw [afterPatternName, afterPatternName, sign_blind "@",
    bind_blind (sign_blind "!" after) anyGroup_blind]
  cases sign "@" after with
  | some rest => exact h.plain rest
  | none =>
    cases sign "!" after >>= anyGroup with
    | some r => rfl
    | none => exact patternRange_blind hcode after

theorem pattern_succ (h : PatternsBlind inner fuel) :
    SkipsBlindly (patternFuel inner (fuel + 1)) := by
  intro ts
  rw [patternFuel, patternFuel, optionally_blind (sign_blind "|")]
  refine bind_blind (h.plain _) fun rest ↦ ?_
  rw [sign_blind, sign_blind]
  cases sign "||" rest with
  | some _ => rfl
  | none =>
    cases sign "|" rest with
    | none => rfl
    | some after => exact h.pattern after

theorem plain_succ (hcode : inner.IsBlind) (h : PatternsBlind inner fuel) :
    SkipsBlindly (plainPatternFuel inner (fuel + 1)) := by
  intro ts
  have hclosed := patternRange_blind hcode
  rcases ts with _ | ⟨t | ⟨o, body, c⟩, rest⟩
  · rw [List.map_nil, plainPatternFuel]
    rfl
  · rw [List.map_cons, Tree.unplaced, plainPatternFuel, plainPatternFuel]
    refine ite_blind (fun _ ↦ hclosed rest) fun _ ↦
      ite_blind (fun _ ↦ bind_blind (literal_blind rest) hclosed) fun _ ↦
      ite_blind (fun _ ↦ ?_) fun _ ↦ ite_blind (fun _ ↦ ?_) fun _ ↦
      ite_blind (fun _ ↦ h.plain rest) fun _ ↦
      ite_blind (fun _ ↦ groupThat_blind "\x7b" hcode.block rest) fun _ ↦ ?_
    · rw [optionally_blind (word_blind "mut")]
      exact h.plain _
    · exact bind_blind (rangeSign_blind (.leaf t :: rest)) (rangeEnd_getD_blind hcode)
    · refine bind_blind (valuePath_blind hcode (.leaf t :: rest)) fun after ↦ ?_
      have hname := h.afterName hcode after
      rcases after with _ | ⟨u | ⟨o, body, c⟩, rest'⟩
      · exact hname
      · exact hname
      · rw [List.map_cons, Tree.unplaced]
        dsimp only
        rw [isCommaList_pattern_blind hcode, (isFieldPatterns_blind hcode).unplacedAll]
        exact ite_blind (fun _ ↦ ite_blind (fun _ ↦ rfl) fun _ ↦ rfl) fun _ ↦
          ite_blind (fun _ ↦ rfl) fun _ ↦ hclosed (.group o body c :: rest')
  · rw [List.map_cons, Tree.unplaced, plainPatternFuel, plainPatternFuel,
      isCommaList_pattern_blind hcode]
    exact ite_blind (fun _ ↦ ite_blind (fun _ ↦ rfl) fun _ ↦ rfl) fun _ ↦ rfl

end PatternsBlind

theorem patternsBlind (hcode : inner.IsBlind) (fuel : Nat) : PatternsBlind inner fuel := by
  induction fuel with
  | zero => exact ⟨fun _ ↦ rfl, fun _ ↦ rfl⟩
  | succ fuel ih => exact ⟨ih.pattern_succ, ih.plain_succ hcode⟩

/-! ## Parameters -/

theorem parameter_blind {here : Code} (hcode : here.IsBlind) : SkipsBlindly (parameter here) := by
  intro ts
  rw [parameter, parameter, skipAttributes_blind hcode]
  refine firstOf_blind (fun p hp ↦ ?_) _
  simp only [List.mem_cons, List.not_mem_nil, or_false] at hp
  rcases hp with rfl | rfl | rfl | rfl
  · intro ts
    refine bind_blind (hcode.pattern ts) fun rest ↦ ?_
    rw [isSome_blind (sign_blind "::" rest)]
    refine ite_blind (fun _ ↦ rfl) fun _ ↦ bind_blind (sign_blind ":" rest)
      (firstOf_blind fun p hp ↦ ?_)
    rw [List.mem_cons, List.mem_singleton] at hp
    rcases hp with rfl | rfl
    · exact sign_blind "..."
    · exact skip_blind (type_blind hcode)
  · intro ts
    dsimp only
    rw [optionally_blind (sign_blind "&"), optionally_blind lifetime_blind,
      optionally_blind (word_blind "mut"), word_blind]
  · exact sign_blind "..."
  · exact skip_blind (type_blind hcode)

/-- What follows a parameter of a closure. -/
def closureParametersAfter (inner : Code) (fuel : Nat) : Skipper := fun rest =>
  match sign "," rest with
  | some after => closureParameters inner fuel after
  | none => sign "|" rest

theorem closureParametersAfter_blind {fuel : Nat}
    (h : SkipsBlindly (closureParameters inner fuel)) :
    SkipsBlindly (closureParametersAfter inner fuel) := by
  intro rest
  rw [closureParametersAfter, closureParametersAfter, sign_blind, sign_blind]
  cases sign "," rest with
  | some after => exact h after
  | none => rfl

theorem closureParameters_blind (hcode : inner.IsBlind) (fuel : Nat) :
    SkipsBlindly (closureParameters inner fuel) := by
  induction fuel with
  | zero => exact fun _ ↦ rfl
  | succ fuel ih =>
    intro ts
    have hmore := closureParametersAfter_blind ih
    rw [closureParameters, closureParameters, sign_blind]
    cases sign "|" ts with
    | some rest => rfl
    | none =>
      rw [List.length_map]
      refine bind_blind ((patternsBlind hcode _).plain ts) fun rest ↦ ?_
      rw [sign_blind]
      cases sign ":" rest with
      | some after => exact bind_blind (skip_blind (type_blind hcode) after) hmore
      | none => exact hmore rest

/-! ## Values -/

/-- Passes over the name or number of a field and the generic arguments that may follow it. -/
def fieldName (inner : Code) : Skipper := fun ts =>
  match ts with
  | .leaf m :: after =>
    if m.kind = .number then some after
    else if m.kind = .word then
      match (do typeArguments inner (← sign "<" (← sign "::" after))) with
      | some after' => some after'
      | none => some after
    else none
  | _ => none

/-- Passes over one thing that is applied to an operand. -/
def application (inner : Code) : Skipper := fun ts =>
  match ts with
  | .group o body _ :: rest =>
    if o.text = "(" then if isValueList inner body then some rest else none
    else if o.text = "[" then
      if (inner.value body) matches some [] then some rest else none
    else none
  | .leaf t :: rest =>
    if t.isMark "?" then some rest
    else if t.isMark "." && (sign ".." ts).isNone then fieldName inner rest
    else none
  | [] => none

theorem fieldName_blind (hcode : inner.IsBlind) : SkipsBlindly (fieldName inner) := by
  rintro (_ | ⟨m | ⟨o, body, c⟩, after⟩)
  · rfl
  · refine ite_blind (fun _ ↦ rfl) fun _ ↦ ite_blind (fun _ ↦ ?_) fun _ ↦ rfl
    have harguments :
        (do typeArguments inner (← sign "<" (← sign "::" (after.map Tree.unplaced)))) =
          (do typeArguments inner (← sign "<" (← sign "::" after))).map (List.map Tree.unplaced) :=
      bind_blind (sign_blind "::" after) fun rest ↦
        bind_blind (sign_blind "<" rest) (typeArguments_blind hcode)
    rw [harguments]
    cases (do typeArguments inner (← sign "<" (← sign "::" after))) with
    | some after' => rfl
    | none => rfl
  · rfl

theorem application_blind (hcode : inner.IsBlind) : SkipsBlindly (application inner) := by
  rintro (_ | ⟨t | ⟨o, body, c⟩, rest⟩)
  · rfl
  · have hrange : (sign ".." ((Tree.leaf t :: rest).map Tree.unplaced)).isNone =
        (sign ".." (.leaf t :: rest)).isNone := by
      rw [sign_blind, Option.isNone_map]
    rw [List.map_cons, Tree.unplaced] at hrange ⊢
    rw [application, application, hrange]
    exact ite_blind (fun _ ↦ rfl) fun _ ↦
      ite_blind (fun _ ↦ fieldName_blind hcode rest) fun _ ↦ rfl
  · have hvalue := hcode.value body
    rw [← Tree.unplacedAll_eq_map] at hvalue
    rw [List.map_cons, Tree.unplaced, application, application,
      (isValueList_blind hcode).unplacedAll, hvalue]
    refine ite_blind (fun _ ↦ ite_blind (fun _ ↦ rfl) fun _ ↦ rfl) fun _ ↦
      ite_blind (fun _ ↦ ?_) fun _ ↦ rfl
    rcases inner.value body with _ | _ | _ <;> rfl

theorem applied_blind (hcode : inner.IsBlind) (ts : List Tree) :
    applied inner (ts.map Tree.unplaced) = (applied inner ts).map Tree.unplaced :=
  many_blind (application_blind hcode) ts

theorem some_applied_blind (hcode : inner.IsBlind) :
    SkipsBlindly (fun ts ↦ some (applied inner ts)) := fun ts ↦
  congrArg some (applied_blind hcode ts)

theorem nameOperand_blind (hcode : inner.IsBlind) (structs : Bool) :
    SkipsBlindly (nameOperand inner structs) := by
  intro ts
  refine bind_blind (valuePath_blind hcode ts) fun rest ↦ ?_
  have hcall : (do anyGroup (← sign "!" (rest.map Tree.unplaced))) =
      (do anyGroup (← sign "!" rest)).map (Prod.map Tree.unplaced (List.map Tree.unplaced)) :=
    bind_blind (sign_blind "!" rest) anyGroup_blind
  rw [hcall]
  cases (do anyGroup (← sign "!" rest)) with
  | some r => exact some_applied_blind hcode r.2
  | none =>
    rcases rest with _ | ⟨t | ⟨o, body, c⟩, rest⟩
    · exact some_applied_blind hcode []
    · exact some_applied_blind hcode (.leaf t :: rest)
    · rw [List.map_cons, Tree.unplaced]
      dsimp only [Option.map_none]
      rw [(isFieldValues_blind hcode).unplacedAll]
      exact ite_blind (fun _ ↦ some_applied_blind hcode rest) fun _ ↦
        some_applied_blind hcode (.group o body c :: rest)

/-- The readers of values do not look at places, given this much fuel. -/
structure ValuesBlind (inner : Code) (fuel : Nat) : Prop where
  value (structs : Bool) : SkipsBlindly (valueFuel inner fuel structs)
  operators (structs : Bool) : SkipsBlindly (operatorsFuel inner fuel structs)
  operand (structs : Bool) : SkipsBlindly (operandFuel inner fuel structs)
  conditional : SkipsBlindly (conditionalFuel inner fuel)
  closure (structs : Bool) : SkipsBlindly (closureFuel inner fuel structs)

namespace ValuesBlind

variable {fuel : Nat}

theorem value_succ (h : ValuesBlind inner fuel) (structs : Bool) :
    SkipsBlindly (valueFuel inner (fuel + 1) structs) := by
  intro ts
  rw [valueFuel, valueFuel]
  exact bind_blind (h.operand structs ts) (h.operators structs)

theorem operators_succ (hcode : inner.IsBlind) (h : ValuesBlind inner fuel) (structs : Bool) :
    SkipsBlindly (operatorsFuel inner (fuel + 1) structs) := by
  intro ts
  rw [operatorsFuel, operatorsFuel, word_blind]
  cases word "as" ts with
  | some after =>
    exact bind_blind (skip_blind (simpleType_blind hcode) after) (h.operators structs)
  | none =>
    dsimp only [Option.map_none]
    rw [rangeSign_blind]
    cases rangeSign ts with
    | some after =>
      dsimp only [Option.map_some]
      rw [h.operand]
      cases operandFuel inner fuel structs after with
      | some rest => exact h.operators structs rest
      | none => rfl
    | none =>
      dsimp only [Option.map_none]
      rw [binarySign_blind]
      cases binarySign ts with
      | some after => exact bind_blind (h.operand structs after) (h.operators structs)
      | none => rfl

theorem conditional_succ (hcode : inner.IsBlind) (h : ValuesBlind inner fuel) :
    SkipsBlindly (conditionalFuel inner (fuel + 1)) := by
  intro ts
  rw [conditionalFuel, conditionalFuel]
  refine bind_blind (h.value false ts) fun after ↦
    bind_blind (groupThat_blind "\x7b" hcode.block after) fun rest ↦ ?_
  rw [word_blind]
  cases word "else" rest with
  | none => exact some_applied_blind hcode rest
  | some after =>
    dsimp only [Option.map_some]
    rw [word_blind]
    cases word "if" after with
    | some rest' => exact h.conditional rest'
    | none =>
      exact bind_blind (groupThat_blind "\x7b" hcode.block after) (some_applied_blind hcode)

theorem closure_succ (hcode : inner.IsBlind) (h : ValuesBlind inner fuel) (structs : Bool) :
    SkipsBlindly (closureFuel inner (fuel + 1) structs) := by
  intro ts
  rw [closureFuel, closureFuel, List.length_map]
  refine bind_blind (sign_blind "|" ts) fun after ↦
    bind_blind (closureParameters_blind hcode _ after) fun rest ↦ ?_
  rw [sign_blind]
  cases sign "->" rest with
  | some after =>
    exact bind_blind (skip_blind (type_blind hcode) after)
      (groupThat_blind "\x7b" hcode.block)
  | none => exact h.value structs rest

/-- What is optional at the end of a value. -/
theorem getD_blind {p : Skipper} (h : SkipsBlindly p) (ts : List Tree) :
    some ((p (ts.map Tree.unplaced)).getD (ts.map Tree.unplaced)) =
      (some ((p ts).getD ts)).map (List.map Tree.unplaced) := by
  rw [h]
  cases p ts <;> rfl

theorem operand_succ (hcode : inner.IsBlind) (h : ValuesBlind inner fuel) (structs : Bool) :
    SkipsBlindly (operandFuel inner (fuel + 1) structs) := by
  intro ts
  have happlied := some_applied_blind hcode
  rcases ts with _ | ⟨t | ⟨o, body, c⟩, rest⟩
  · rw [List.map_nil, operandFuel]
    rfl
  · rw [List.map_cons, Tree.unplaced, operandFuel, operandFuel]
    refine ite_blind (fun _ ↦ happlied rest) fun _ ↦
      ite_blind (fun _ ↦ h.operand structs rest) fun _ ↦
      ite_blind (fun _ ↦ ?reference) fun _ ↦ ite_blind (fun _ ↦ ?range) fun _ ↦
      ite_blind (fun _ ↦ ?label) fun _ ↦
      ite_blind (fun _ ↦ h.closure structs (.leaf t :: rest)) fun _ ↦
      ite_blind (fun _ ↦ bind_blind (group_blind "[" rest) fun r ↦ h.operand structs r.2) fun _ ↦
      ite_blind (fun _ ↦ ?word) fun _ ↦ nameOperand_blind hcode structs (.leaf t :: rest)
    case reference =>
      have hraw : (do oneWord ["const", "mut"] (← word "raw" (rest.map Tree.unplaced))) =
          (do oneWord ["const", "mut"] (← word "raw" rest)).map (List.map Tree.unplaced) :=
        bind_blind (word_blind "raw" rest) (oneWord_blind _)
      rw [hraw]
      cases (do oneWord ["const", "mut"] (← word "raw" rest)) with
      | some after => exact h.operand structs after
      | none =>
        dsimp only [Option.map_none]
        rw [optionally_blind (word_blind "mut")]
        exact h.operand structs _
    case range =>
      refine bind_blind (rangeSign_blind (.leaf t :: rest)) fun after ↦ ?_
      rw [h.operand]
      cases operandFuel inner fuel structs after with
      | some rest' => rfl
      | none => rfl
    case label =>
      refine bind_blind (lifetime_blind (.leaf t :: rest)) fun after ↦
        bind_blind (sign_blind ":" after) fun rest' ↦ ?_
      rw [beginsBlock_blind]
      exact ite_blind (fun _ ↦ h.operand structs rest') fun _ ↦ rfl
    case word =>
      have hblock := groupThat_blind "\x7b" hcode.block
      have hpattern := (patternsBlind hcode ((Tree.leaf t :: rest).length + 1)).pattern rest
      have hlength : (Tree.leaf t.unplaced :: rest.map Tree.unplaced).length =
          (Tree.leaf t :: rest).length := by
        rw [List.length_cons, List.length_cons, List.length_map]
      have hwords := many_blind (oneWord_blind ["static", "async", "move"]) (.leaf t :: rest)
      rw [List.map_cons, Tree.unplaced] at hwords
      rw [hlength, hwords, isNone_blind (sign_blind "::" rest)]
      refine ite_blind (fun _ ↦ h.conditional rest) fun _ ↦ ite_blind (fun _ ↦ ?_) fun _ ↦
        ite_blind (fun _ ↦ ?_) fun _ ↦ ite_blind (fun _ ↦ ?_) fun _ ↦
        ite_blind (fun _ ↦ hblock rest) fun _ ↦ ite_blind (fun _ ↦ ?_) fun _ ↦
        ite_blind (fun _ ↦ bind_blind (hblock rest) happlied) fun _ ↦
        ite_blind (fun _ ↦ ?_) fun _ ↦
        ite_blind (fun _ ↦ getD_blind (h.value structs) rest) fun _ ↦
        ite_blind (fun _ ↦ ?_) fun _ ↦ ite_blind (fun _ ↦ ?_) fun _ ↦
        ite_blind (fun _ ↦ rfl) fun _ ↦ nameOperand_blind hcode structs (.leaf t :: rest)
      · exact bind_blind hpattern fun after ↦
          bind_blind (sign_blind "=" after) (h.operand false)
      · exact bind_blind (h.value false rest) fun after ↦
          bind_blind (groupThat_blind "\x7b" (areArms_blind hcode) after) happlied
      · exact bind_blind (h.value false rest) hblock
      · exact bind_blind hpattern fun after ↦ bind_blind (word_blind "in" after) fun after ↦
          bind_blind (h.value false after) hblock
      · rw [optionally_blind (word_blind "move"), hblock]
        cases groupThat "\x7b" inner.block (optionally (word "move") rest) with
        | some rest' => exact ite_blind (fun _ ↦ happlied rest') fun _ ↦ rfl
        | none => exact h.closure structs _
      · rw [optionally_blind lifetime_blind]
        exact getD_blind (h.value structs) _
      · rw [optionally_blind lifetime_blind]
        rfl
  · rw [List.map_cons, Tree.unplaced, operandFuel, operandFuel,
      (isValueList_blind hcode).unplacedAll, (isArray_blind hcode).unplacedAll,
      hcode.block.unplacedAll]
    exact ite_blind (fun _ ↦ ite_blind (fun _ ↦ happlied rest) fun _ ↦ rfl) fun _ ↦
      ite_blind (fun _ ↦ ite_blind (fun _ ↦ happlied rest) fun _ ↦ rfl) fun _ ↦
      ite_blind (fun _ ↦ happlied rest) fun _ ↦ rfl

end ValuesBlind

theorem valuesBlind (hcode : inner.IsBlind) (fuel : Nat) : ValuesBlind inner fuel := by
  induction fuel with
  | zero => exact ⟨fun _ _ ↦ rfl, fun _ _ ↦ rfl, fun _ _ ↦ rfl, fun _ ↦ rfl, fun _ _ ↦ rfl⟩
  | succ fuel ih =>
    exact ⟨ih.value_succ, ih.operators_succ hcode, ih.operand_succ hcode,
      ih.conditional_succ hcode, ih.closure_succ hcode⟩

/-! ## Blocks -/

theorem isBlockFuel_blind {here : Code} (hcode : here.IsBlind) (fuel : Nat) :
    TestsBlindly (isBlockFuel here fuel) := by
  intro ts
  induction fuel generalizing ts with
  | zero => cases ts <;> rfl
  | succ fuel ih =>
    cases ts with
    | nil => rfl
    | cons t ts =>
      have hvalue := hcode.value (t :: ts)
      have hentry := entry_blind hcode (t :: ts)
      rw [List.map_cons] at hvalue hentry ⊢
      rw [isBlockFuel, isBlockFuel, hvalue, hentry]
      · rcases here.value (t :: ts) with _ | _ | _
        · cases entry here (t :: ts) with
          | none => rfl
          | some r => exact ih r.2
        · rfl
        · cases entry here (t :: ts) with
          | none => rfl
          | some r => exact ih r.2
      · exact List.cons_ne_nil _ _
      · exact List.cons_ne_nil _ _

/-! ## The code of a depth of nesting -/

theorem Code.IsBlind.next (hcode : inner.IsBlind) : (Code.next inner).IsBlind := by
  have hvalue : SkipsBlindly (Code.next inner).value := by
    intro ts
    show valueFuel inner (4 * Tree.sizeList (ts.map Tree.unplaced) + 4) true _ = _
    rw [Tree.sizeList_unplaced, (valuesBlind hcode _).value]
    rfl
  have hpattern : SkipsBlindly (Code.next inner).pattern := by
    intro ts
    show patternFuel inner (4 * Tree.sizeList (ts.map Tree.unplaced) + 4) _ = _
    rw [Tree.sizeList_unplaced, (patternsBlind hcode _).pattern]
    rfl
  have hhere : Code.IsBlind { inner with
      value := (Code.next inner).value
      pattern := (Code.next inner).pattern } :=
    { hcode with value := hvalue, pattern := hpattern }
  refine ⟨hvalue, hpattern, fun ts ↦ ?_, isCommaList_blind (parameter_blind hhere), fun ts ↦ ?_⟩
  · show isBlockFuel _ (ts.map Tree.unplaced).length _ = _
    rw [List.length_map]
    exact isBlockFuel_blind hhere ts.length ts
  · exact isSome_blind (entries_blind hhere ts)

/-- **The code of a depth of nesting does not look at places.** -/
theorem Code.isBlind_ofDepth (n : Nat) : (Code.ofDepth n).IsBlind := by
  induction n with
  | zero => exact ⟨fun _ ↦ rfl, fun _ ↦ rfl, fun _ ↦ rfl, fun _ ↦ rfl, fun _ ↦ rfl⟩
  | succ n ih => exact ih.next

end Grammar

namespace Tree

mutual
theorem depth_unplaced (t : Tree) : t.unplaced.depth = t.depth := by
  cases t with
  | leaf t => rfl
  | group o body c => rw [unplaced, depth, depthList_unplacedAll body, depth]
theorem depthList_unplacedAll (ts : List Tree) : depthList (unplacedAll ts) = depthList ts := by
  cases ts with
  | nil => rfl
  | cons t ts => rw [unplacedAll, depthList, depth_unplaced t, depthList_unplacedAll ts, depthList]
end

end Tree

/-- **What a text says does not depend on where it stands**: trees that are the same apart from
places are read as the same entries apart from places. -/
theorem entriesOf_unplaced (ts : List Tree) :
    entriesOf (ts.map Tree.unplaced) = (entriesOf ts).map (List.map Entry.unplacedItem) := by
  rw [entriesOf, entriesOf, ← Tree.unplacedAll_eq_map, Tree.depthList_unplacedAll,
    Tree.unplacedAll_eq_map]
  exact Grammar.entries_blind (Grammar.Code.isBlind_ofDepth _) ts

end Rust
end NodeSchema
