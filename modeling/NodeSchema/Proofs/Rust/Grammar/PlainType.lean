import NodeSchema.Proofs.Rust.Grammar.Type
import NodeSchema.Proofs.Rust.PlainType
import NodeSchema.Proofs.Text.PathName

/-!
# Reading plain types

The tree of a plain type is read off its token trees.
-/

set_option autoImplicit false

namespace NodeSchema
namespace Rust

open Text Lexeme Rust.Tree Grammar

/-! ## The text of a path -/

theorem written_segmentTrees (segments : List String) :
    written (segmentTrees segments) = segments.flatMap fun s ↦ "::".toList ++ s.toList := by
  induction segments with
  | nil => rfl
  | cons s segments ih =>
    rw [List.flatMap_cons, ← ih]
    rfl

theorem textOf_pathTrees (gap : List Lexeme) {segments : List String} (hne : segments ≠ []) :
    textOf (pathTrees gap segments) = "::".intercalate segments := by
  cases segments with
  | nil => exact absurd rfl hne
  | cons s segments =>
    rw [pathTrees, textOf, written_segmentTrees, ← String.toList_inj, String.toList_ofList,
      toList_intercalate]
    rfl

theorem consumed_append (ts rest : List Tree) : consumed (ts ++ rest) rest = ts := by
  rw [consumed, List.length_append, Nat.add_sub_cancel, List.take_left]

/-! ## What stands around a type -/

/-- The marks that may follow a type. -/
def typeEnds : List String := [",", ">", ";"]

/-- The trees may follow a type: there are none, or they begin with a mark that may. -/
inductive EndsType : List Tree → Prop
  | nil : EndsType []
  | mark {t : Token} {rest : List Tree} (hkind : t.kind = .mark) (htext : t.text ∈ typeEnds) :
    EndsType (.leaf t :: rest)

theorem EndsType.sign_eq_none {rest : List Tree} (h : EndsType rest) {text : String} {c : Char}
    {cs : List Char} (htext : text.toList = c :: cs) (hc : String.singleton c ∉ typeEnds) :
    sign text rest = none := by
  cases h with
  | nil => rw [sign, htext]; rfl
  | @mark t rest hkind ht =>
    have hne : t.text ≠ String.singleton c := fun heq ↦ hc (heq ▸ ht)
    rw [sign, htext, signFrom, Token.isMark, decide_eq_false hne, Bool.and_false, Bool.false_and]
    exact if_neg Bool.false_ne_true

/-- The tree may begin a plain type: it is a word, but none that begins a bound, is a value or makes
something public, or it is in parentheses. -/
inductive BeginsType : Tree → Prop
  | word {t : Token} (hkind : t.kind = .word) (htext : t.text ∉ ["use", "true", "false", "pub"]) :
    BeginsType (.leaf t)
  | group {o c : Token} {body : List Tree} (ho : o.text = "(") : BeginsType (.group o body c)

namespace BeginsType

variable {x : Tree} (h : BeginsType x) (ts : List Tree)
include h

theorem sign_eq_none {text : String} {c : Char} {cs : List Char} (htext : text.toList = c :: cs) :
    sign text (x :: ts) = none := by
  cases h with
  | word hkind =>
    rw [sign, htext, signFrom, Token.isMark, hkind]
    rfl
  | group => rw [sign, htext]; rfl

theorem lifetime_eq_none : lifetime (x :: ts) = none := by
  rw [lifetime, h.sign_eq_none ts (c := '\'') rfl]
  rfl

theorem looseBound_eq_none : looseBound (x :: ts) = none := by
  have huse : Grammar.word "use" (x :: ts) = none := by
    cases h with
    | word hkind htext =>
      refine word_eq_none_of_text_ne (fun heq ↦ ?_) ts
      rw [heq] at htext
      exact htext (by decide)
    | group => rfl
  simp only [looseBound, firstOf, List.findSome?, h.lifetime_eq_none ts, huse, Option.bind_eq_bind,
    Option.bind_none]

theorem literal_eq_none : literal (x :: ts) = none := by
  cases h with
  | @word t hkind htext =>
    simp only [List.mem_cons, List.not_mem_nil, or_false, not_or] at htext
    rw [literal, isLiteral, Token.isWord, Token.isWord, hkind, decide_eq_false htext.2.1,
      decide_eq_false htext.2.2.1]
    rfl
  | group => rfl

theorem block_eq_none (accepts : List Tree → Bool) : groupThat "\x7b" accepts (x :: ts) = none := by
  cases h with
  | word => rfl
  | group ho => rw [groupThat, Grammar.group, ho]; rfl

end BeginsType

/-! ## Steps of the readers -/

/-- What a path may go on with behind further segments. -/
def stemAfter : Stem → List String → Stem
  | stem, [] => stem
  | _, s :: segments => stemAfter (if s = "super" then .opening else .name) segments

section Steps

variable {code : Code} {fuel : Nat} {x : Tree} {ts rest : List Tree} {t : TypeNode}

theorem typeFuel_of_simpleTypeFuel (hx : BeginsType x) (hrest : EndsType rest)
    (h : simpleTypeFuel code fuel (x :: ts) = some (t, rest)) :
    typeFuel code (fuel + 1) (x :: ts) = some (t, rest) := by
  have hplus : sign "+" rest = none := hrest.sign_eq_none (c := '+') rfl (by decide)
  simp only [typeFuel, hx.looseBound_eq_none ts, h, hplus, Option.bind_eq_bind, Option.bind_some]

theorem argumentFuel_of_typeFuel (hx : BeginsType x) (hrest : EndsType rest)
    (h : typeFuel code fuel (x :: ts) = some (t, rest)) :
    argumentFuel code (fuel + 2) (x :: ts) = some ([t], rest) := by
  have hequals : sign "=" rest = none := hrest.sign_eq_none (c := '=') rfl (by decide)
  have hcolons : sign "::" rest = none := hrest.sign_eq_none (c := ':') rfl (by decide)
  have hcolon : sign ":" rest = none := hrest.sign_eq_none (c := ':') rfl (by decide)
  have hbinding : bindingOrTypeFuel code fuel (x :: ts) = some (t, rest) := by
    simp only [bindingOrTypeFuel, h, hequals, Option.bind_eq_bind, Option.bind_some]
  have hplain : plainArgumentFuel code (fuel + 1) (x :: ts) = some (t, rest) := by
    rw [plainArgumentFuel, hx.literal_eq_none ts, hx.block_eq_none ts, hx.lifetime_eq_none ts]
    exact hbinding
  simp only [argumentFuel, hplain, hcolons, hcolon, Option.bind_eq_bind, Option.bind_some]

/-- A path goes on with the segments behind its first word. -/
theorem pathFuel_segmentTrees (start : List Tree) (stem : Stem) (segments : List String)
    (rest : List Tree) :
    pathFuel code (fuel + segments.length) start stem [] (segmentTrees segments ++ rest) =
      pathFuel code fuel start (stemAfter stem segments) [] rest := by
  induction segments generalizing stem with
  | nil => rfl
  | cons s segments ih =>
    rw [List.length_cons, ← Nat.add_assoc, pathFuel]
    have hsign : sign "::" (segmentTrees (s :: segments) ++ rest) =
        some (.leaf (.ofWord [] s) :: (segmentTrees segments ++ rest)) := rfl
    rw [hsign]
    exact ih _

/-- A path may end in front of what ends a type. -/
theorem pathFuel_of_endsType {start : List Tree} {stem : Stem} (hstem : stem.ends = true)
    (hrest : EndsType rest) : pathFuel code (fuel + 1) start stem [] rest =
      some (.path (textOf (consumed start rest)) [], rest) := by
  have hcolons : sign "::" rest = none := hrest.sign_eq_none (c := ':') rfl (by decide)
  rw [pathFuel, hcolons]
  cases hrest with
  | nil => exact if_pos hstem
  | @mark t rest hkind htext =>
    have hne (text : String) (h : text ∉ typeEnds) : t.isMark text = false := by
      have hne : t.text ≠ text := fun heq ↦ h (heq ▸ htext)
      rw [Token.isMark, decide_eq_false hne, Bool.and_false]
    simp only [hne "<" (by decide), hne "!" (by decide), hstem, Bool.false_and,
      Bool.false_eq_true, if_false, if_true]

/-- Arguments may follow a path. -/
theorem pathFuel_of_argumentsFuel {start inside : List Tree} {stem : Stem}
    (hstem : stem.takesArguments = true) {ts : List TypeNode} (hrest : EndsType rest)
    (h : argumentsFuel code fuel inside = some (ts, rest)) :
    pathFuel code (fuel + 1) start stem [] (.leaf (.ofMark [] '<') :: inside) =
      some (.path (textOf (consumed start (.leaf (.ofMark [] '<') :: inside))) ts,
        rest) := by
  have hcolons : sign "::" rest = none := hrest.sign_eq_none (c := ':') rfl (by decide)
  have hopen : sign "::" (.leaf (.ofMark [] '<') :: inside) = none := rfl
  have hmark : (Token.ofMark [] '<').isMark "<" = true := rfl
  simp only [pathFuel, hopen, hmark, hstem, h, hcolons, Bool.and_self, if_true, Option.bind_eq_bind,
    Option.bind_some]

/-- The word begins no type of another kind than a path. -/
def BeginsPath (text : String) : Prop :=
  text ∉ ["impl", "dyn", "for", "use", "fn", "extern"] ∧ text ∉ functionModifiers

theorem simpleTypeFuel_of_beginsPath {u : Token} (hkind : u.kind = .word)
    (h : BeginsPath u.text) :
    simpleTypeFuel code (fuel + 1) (.leaf u :: ts) =
      pathFuel code fuel (.leaf u :: ts) (stemOf u.text) [] ts := by
  obtain ⟨hwords, hmodifiers⟩ := h
  simp only [List.mem_cons, List.not_mem_nil, or_false, not_or] at hwords
  obtain ⟨himpl, hdyn, hfor, huse, hfn, hextern⟩ := hwords
  have hfunction : beginsFunction u.text = false := by
    rw [beginsFunction, decide_eq_false hfn, decide_eq_false hextern, Bool.false_or, Bool.false_or]
    exact Bool.eq_false_iff.mpr fun hmem ↦ hmodifiers (List.contains_iff_mem.mp hmem)
  simp only [simpleTypeFuel, hkind, himpl, hdyn, hfor, huse, hfunction, if_true, if_false,
    Bool.false_eq_true]

theorem simpleTypeFuel_group {o c : Token} {body : List Tree} (ho : o.text = "(") :
    simpleTypeFuel code (fuel + 1) (.group o body c :: ts) =
      if body.isEmpty then some (.tuple [], ts)
      else (typesFuel code fuel body).map fun elements ↦ (.tuple elements, ts) := by
  simp only [simpleTypeFuel, ho, if_true]
  split
  · rfl
  · cases typesFuel code fuel body <;> rfl

end Steps

/-! ## Paths -/

theorem IsSegment.notMem {s : String} (h : IsSegment s) (words : List String)
    (hwords : words.all (fun w ↦ (reservedWords ++ primitiveTypes ++ ["dyn", "extern"]).contains w)
      = true) : s ∉ words := by
  intro hs
  have hmem := List.contains_iff_mem.mp (List.all_eq_true.mp hwords s hs)
  rcases List.mem_append.mp hmem with hmem | hmem
  · rcases List.mem_append.mp hmem with hmem | hmem
    · exact h.notReserved hmem
    · exact h.notPrimitive hmem
  · exact h.beginsPath hmem

theorem stemOf_eq_name {s : String} (h : IsSegment s) : stemOf s = .name := by
  have hnot {words : List String} (hs : s ∉ words) : ¬ words.contains s = true :=
    fun hmem ↦ hs (List.contains_iff_mem.mp hmem)
  rw [stemOf, if_neg (hnot (h.notMem _ (by decide))), if_neg (hnot (h.notMem _ (by decide))),
    if_neg (hnot (h.notMem _ (by decide)))]

theorem stemAfter_concat (stem : Stem) (segments : List String) (s : String) :
    stemAfter stem (segments ++ [s]) = if s = "super" then .opening else .name := by
  induction segments generalizing stem with
  | nil => rfl
  | cons _ _ ih => exact ih _

namespace IsPath

variable {s : String} {segments : List String} {arguments : List TypeExpr}

/-- No path begins with a word of another kind. -/
theorem first (h : IsPath (s :: segments) arguments) :
    BeginsPath s ∧ s ∉ ["use", "true", "false", "pub"] := by
  have hwords {words : List String} (hs : s ∈ words) (hall : words.all (fun w ↦
      !(["impl", "dyn", "for", "use", "fn", "extern"] ++ functionModifiers ++
        ["use", "true", "false", "pub"]).contains w) = true) :
      BeginsPath s ∧ s ∉ ["use", "true", "false", "pub"] := by
    have hs := List.all_eq_true.mp hall s hs
    rw [Bool.not_eq_true', List.contains_eq_mem, decide_eq_false_iff_not] at hs
    simp only [List.mem_append, not_or] at hs
    exact hs
  generalize hpath : s :: segments = path at h
  cases h with
  | @names openings names _ hopenings hnames hne =>
    cases openings with
    | cons o openings =>
      obtain ⟨rfl, -⟩ := List.cons.inj hpath
      exact hwords (hopenings s List.mem_cons_self) (by decide)
    | nil =>
      rw [List.nil_append] at hpath
      have hs := hnames s (hpath ▸ List.mem_cons_self)
      exact ⟨⟨hs.notMem _ (by decide), hs.notMem _ (by decide)⟩, hs.notMem _ (by decide)⟩
  | primitive hs =>
    obtain ⟨rfl, -⟩ := List.cons.inj hpath
    exact hwords hs (by decide)

/-- A path may end where it does, and take the arguments that it has. -/
theorem stem (h : IsPath (s :: segments) arguments) :
    (stemAfter (stemOf s) segments).ends = true ∧
      (arguments ≠ [] → (stemAfter (stemOf s) segments).takesArguments = true) := by
  generalize hpath : s :: segments = path at h
  cases h with
  | @names openings names _ hopenings hnames hne =>
    suffices hname : stemAfter (stemOf s) segments = .name by
      rw [hname]
      exact ⟨rfl, fun _ ↦ rfl⟩
    obtain ⟨names, last, rfl⟩ : ∃ init last, names = init ++ [last] :=
      ⟨_, _, (List.dropLast_concat_getLast hne).symm⟩
    have hlast := hnames last (by simp)
    rw [← List.append_assoc] at hpath
    cases hinit : openings ++ names with
    | nil =>
      rw [hinit] at hpath
      obtain ⟨rfl, rfl⟩ := List.cons.inj hpath
      exact stemOf_eq_name hlast
    | cons o init =>
      rw [hinit] at hpath
      obtain ⟨-, rfl⟩ := List.cons.inj hpath
      have hsuper : last ≠ "super" :=
        fun heq ↦ hlast.notMem ["super"] (by decide) (heq ▸ List.mem_cons_self)
      show stemAfter _ (init ++ [last]) = _
      rw [stemAfter_concat, if_neg hsuper]
  | primitive hs =>
    obtain ⟨rfl, rfl⟩ := List.cons.inj hpath
    have hall : ∀ s ∈ primitiveTypes, (stemOf s).ends = true := by decide
    exact ⟨hall s hs, fun hne ↦ absurd rfl hne⟩

end IsPath

theorem sizeList_append (ts us : List Tree) :
    sizeList (ts ++ us) = sizeList ts + sizeList us := by
  induction ts with
  | nil => exact (Nat.zero_add _).symm
  | cons t ts ih => rw [List.cons_append, sizeList, sizeList, ih, Nat.add_assoc]

theorem length_le_sizeList_segmentTrees (segments : List String) :
    segments.length ≤ sizeList (segmentTrees segments) := by
  induction segments with
  | nil => exact Nat.le_refl 0
  | cons s segments ih =>
    have hsize : sizeList (segmentTrees (s :: segments)) =
      1 + (1 + (1 + sizeList (segmentTrees segments))) := rfl
    rw [List.length_cons, hsize]
    omega

/-! ## The call of the token macro -/

/-- The tokens of a spelling. -/
def spellingTokens (text : String) : List Token :=
  if text.toList.head?.any isIdentStart then [.ofWord [] text]
  else text.toList.map (Token.ofMark [])

theorem spellingTrees_eq_map (text : String) :
    spellingTrees text = (spellingTokens text).map Tree.leaf := by
  rw [spellingTrees, spellingTokens]
  split
  · rfl
  · rw [List.map_map]
    rfl

theorem kind_of_mem_spellingTokens {text : String} {t : Token} (h : t ∈ spellingTokens text) :
    t.kind ≠ .rawString := by
  rw [spellingTokens] at h
  split at h
  · obtain rfl := List.mem_singleton.mp h
    exact nofun
  · obtain ⟨c, -, rfl⟩ := List.mem_map.mp h
    exact nofun

theorem text_spellingTokens (text : String) :
    (spellingTokens text).flatMap (fun t ↦ t.text.toList) = text.toList := by
  rw [spellingTokens]
  split
  · exact List.append_nil _
  · rw [List.flatMap_map]
    exact (List.flatMap_congr fun c _ ↦ String.toList_singleton c).trans
      (List.flatMap_singleton' _)

theorem kind_mergeTokens (t : Token) (ts : List Tree) : (mergeTokens t ts).kind = t.kind := by
  induction ts generalizing t with
  | nil => rfl
  | cons u ts ih => rw [mergeTokens, ih]

/-- Merging tokens keeps what they make up. -/
theorem text_mergeTokens (t : Token) (us : List Token) :
    (mergeTokens t (us.map Tree.leaf)).text.toList =
      t.text.toList ++ us.flatMap fun u ↦ u.text.toList := by
  induction us generalizing t with
  | nil => exact (List.append_nil _).symm
  | cons u us ih =>
    rw [List.map_cons, mergeTokens, ih, String.toList_append, List.append_assoc, List.flatMap_cons]
    rfl

/-- Joining tokens keeps what they make up. -/
theorem exists_tokens_joinedAfter {us : List Token} (hus : ∀ u ∈ us, u.kind ≠ .rawString)
    (skip : Nat) : ∃ ts : List Token, joinedAfter skip (us.map Tree.leaf) = ts.map Tree.leaf ∧
      (∀ t ∈ ts, t.kind ≠ .rawString) ∧
        ts.flatMap (fun t ↦ t.text.toList) = (us.drop skip).flatMap fun t ↦ t.text.toList := by
  induction us generalizing skip with
  | nil => exact ⟨[], by cases skip <;> rfl, nofun, by rw [List.drop_nil]⟩
  | cons u us ih =>
    obtain ⟨hu, hus⟩ := List.forall_mem_cons.mp hus
    cases skip with
    | succ skip => exact ih hus skip
    | zero =>
      obtain ⟨ts, hjoined, hkind, htext⟩ := ih hus (operatorTail (.leaf u) (us.map Tree.leaf))
      refine ⟨mergeTokens u ((us.map Tree.leaf).take _) :: ts, congrArg _ hjoined, ?_, ?_⟩
      · refine List.forall_mem_cons.mpr ⟨?_, hkind⟩
        rw [kind_mergeTokens]
        exact hu
      · rw [List.flatMap_cons, htext, ← List.map_take, text_mergeTokens, List.append_assoc,
          ← List.flatMap_append, List.take_append_drop]
        rfl

/-- A group whose operators are joined encloses what it enclosed before. -/
theorem encloses_joined {us : List Token} (hus : ∀ u ∈ us, u.kind ≠ .rawString) (o c : Token) :
    (Tree.group o (us.map leaf) c).joined.unplaced.Encloses
      (String.ofList (us.flatMap fun u ↦ u.text.toList)) := by
  obtain ⟨ts, hjoined, hkind, htext⟩ := exists_tokens_joinedAfter hus 0
  refine ⟨ts.map Token.unplaced, ?_, List.forall_mem_map.mpr hkind, ?_⟩
  · rw [body_unplaced, joined, Tree.body, hjoined, List.map_map, List.map_map]
    rfl
  · rw [List.flatMap_map, String.toList_ofList]
    exact htext

/-- The tree of what the token macro is called on. -/
def callTokens (text : String) : Tree :=
  (Tree.group (.ofMark [] '[') (spellingTrees text) (.ofMark [] ']')).joined.unplaced

/-- **The tree encloses tokens that make up the text.** -/
theorem callTokens_encloses (text : String) : (callTokens text).Encloses text := by
  have hkinds : ∀ u ∈ spellingTokens text, u.kind ≠ .rawString :=
    fun u hu ↦ kind_of_mem_spellingTokens hu
  have h := encloses_joined hkinds (.ofMark [] '[') (.ofMark [] ']')
  rwa [text_spellingTokens, String.ofList_toList, ← spellingTrees_eq_map] at h

namespace TypeExpr

variable {code : Code}

theorem simpleTypeFuel_token (gap : List Lexeme) (text : String) (fuel : Nat) (rest : List Tree) :
    simpleTypeFuel code (fuel + 2) (trees gap (.macroCall "Token" text) ++ rest) =
      some ((macroCall "Token" text).node callTokens, rest) := by
  have hfirst : BeginsPath "Token" := by
    refine ⟨?_, ?_⟩ <;> decide
  have hname : textOf (consumed (trees gap (.macroCall "Token" text) ++ rest)
      ((trees gap (.macroCall "Token" text)).tail ++ rest)) = "Token" := by
    rw [trees, List.tail_cons, List.cons_append, ← List.singleton_append, consumed_append]
    show textOf (pathTrees gap ["Token"]) = _
    rw [textOf_pathTrees gap (List.cons_ne_nil _ _)]
    decide
  have hpath : simpleTypeFuel code (fuel + 1 + 1) (.leaf (.ofWord gap "Token") ::
      ((trees gap (.macroCall "Token" text)).tail ++ rest)) = _ :=
    simpleTypeFuel_of_beginsPath rfl hfirst
  have hstem : stemOf "Token" = .name := by
    refine stemOf_eq_name ⟨⟨?_, ?_, ?_⟩, ?_⟩
    · exact isWord_of_all (by decide)
    all_goals decide
  have hsign : sign "::" ((trees gap (.macroCall "Token" text)).tail ++ rest) = none := rfl
  refine hpath.trans ?_
  show pathFuel code (fuel + 1) (trees gap (.macroCall "Token" text) ++ rest) (stemOf "Token") []
    ((trees gap (.macroCall "Token" text)).tail ++ rest) = _
  rw [hstem, pathFuel, hsign, hname]
  rfl

/-! ## Types -/

theorem beginsType_token (gap : List Lexeme) : BeginsType (.leaf (.ofWord gap "Token")) := by
  have hnot : "Token" ∉ ["use", "true", "false", "pub"] := by decide
  exact .word rfl hnot

theorem IsPlain.exists_trees {t : TypeExpr} (h : t.IsPlain) (gap : List Lexeme) :
    ∃ x xs, t.trees gap = x :: xs ∧ BeginsType x := by
  cases h with
  | @path segments arguments hpath =>
    cases segments with
    | nil => exact absurd rfl hpath.ne_nil
    | cons s segments => exact ⟨_, _, rfl, .word rfl hpath.first.2⟩
  | tuple => exact ⟨_, _, rfl, .group rfl⟩
  | token => exact ⟨_, _, rfl, beginsType_token gap⟩

/-- The tree of the type is read off its token trees. -/
def ReadsBack (code : Code) (t : TypeExpr) : Prop :=
  ∀ (gap : List Lexeme) (rest : List Tree) (fuel : Nat), EndsType rest →
    8 * sizeList (t.trees gap) ≤ fuel →
      typeFuel code fuel (t.trees gap ++ rest) = some (t.node callTokens, rest)

theorem endsType_treesAfter (ts : List TypeExpr) {rest : List Tree} (h : EndsType rest) :
    EndsType (treesAfter ts ++ rest) := by
  cases ts with
  | nil => exact h
  | cons => exact .mark rfl (by decide)

theorem sizeList_treesAfter (t : TypeExpr) (ts : List TypeExpr) :
    sizeList (treesAfter (t :: ts)) = 1 + sizeList (treesAll space (t :: ts)) := rfl

section Lists

variable {ts : List TypeExpr} (hne : ts ≠ []) (hplain : ∀ t ∈ ts, t.IsPlain)
  (hread : ∀ t ∈ ts, t.ReadsBack code) {gap : List Lexeme} {fuel : Nat}
include hne hplain hread

theorem typesFuel_treesAll (hfuel : 8 * sizeList (treesAll gap ts) + 1 ≤ fuel) :
    typesFuel code fuel (treesAll gap ts) = some (nodes callTokens ts) := by
  induction ts generalizing gap fuel with
  | nil => exact absurd rfl hne
  | cons t ts ih =>
    obtain ⟨ht, hreads⟩ := List.forall_mem_cons.mp hread
    rw [treesAll, sizeList_append] at hfuel
    cases fuel with
    | zero => omega
    | succ fuel =>
      have hends : EndsType (treesAfter ts) := by
        rw [← List.append_nil (treesAfter ts)]
        exact endsType_treesAfter ts .nil
      rw [typesFuel, treesAll, ht gap (treesAfter ts) fuel hends (by omega)]
      cases ts with
      | nil => rfl
      | cons u ts =>
        obtain ⟨-, hplains⟩ := List.forall_mem_cons.mp hplain
        rw [sizeList_treesAfter] at hfuel
        have hrest : typesFuel code fuel (treesAll space (u :: ts)) = _ :=
          ih (List.cons_ne_nil u ts) hplains hreads (by omega)
        obtain ⟨x, xs, hx, -⟩ := (hplains u List.mem_cons_self).exists_trees space
        have hafter : treesAfter (u :: ts) = .leaf (.ofMark [] ',') :: x :: (xs ++ treesAfter ts) :=
          congrArg (fun trees ↦ Tree.leaf (.ofMark [] ',') :: (trees ++ treesAfter ts)) hx
        have hsign : sign "," (.leaf (.ofMark [] ',') :: x :: (xs ++ treesAfter ts)) =
          some (x :: (xs ++ treesAfter ts)) := rfl
        rw [treesAll, hx, List.cons_append] at hrest
        rw [hafter]
        simp only [Option.bind_eq_bind, Option.bind_some, hsign, hrest, Option.map_some, nodes]

theorem argumentsFuel_treesAll {rest : List Tree}
    (hfuel : 8 * sizeList (treesAll gap ts) + 3 ≤ fuel) :
    argumentsFuel code fuel (treesAll gap ts ++ .leaf (.ofMark [] '>') :: rest) =
      some (nodes callTokens ts, rest) := by
  induction ts generalizing gap fuel with
  | nil => exact absurd rfl hne
  | cons t ts ih =>
    obtain ⟨ht, hreads⟩ := List.forall_mem_cons.mp hread
    obtain ⟨htplain, hplains⟩ := List.forall_mem_cons.mp hplain
    rw [treesAll, sizeList_append] at hfuel
    obtain ⟨fuel, rfl⟩ : ∃ n, fuel = n + 3 := ⟨fuel - 3, by omega⟩
    have hargument : argumentFuel code (fuel + 2) (trees gap t ++ (treesAfter ts ++
        .leaf (.ofMark [] '>') :: rest)) =
          some ([t.node callTokens], treesAfter ts ++ .leaf (.ofMark [] '>') :: rest) := by
      have hends : EndsType (treesAfter ts ++ .leaf (.ofMark [] '>') :: rest) :=
        endsType_treesAfter ts (.mark rfl (by decide))
      have htype := ht gap _ fuel hends (by omega)
      obtain ⟨x, xs, hx, hbegins⟩ := htplain.exists_trees gap
      rw [hx] at htype ⊢
      exact argumentFuel_of_typeFuel hbegins hends htype
    rw [argumentsFuel, treesAll, List.append_assoc, hargument]
    cases ts with
    | nil => rfl
    | cons u ts =>
      rw [sizeList_treesAfter] at hfuel
      have hrest : argumentsFuel code (fuel + 2) (treesAll space (u :: ts) ++ _) = _ :=
        ih (List.cons_ne_nil u ts) hplains hreads (by omega)
      have hcomma : sign "," (treesAfter (u :: ts) ++ .leaf (.ofMark [] '>') :: rest) =
        some (treesAll space (u :: ts) ++ .leaf (.ofMark [] '>') :: rest) := rfl
      have hclose : sign ">" (treesAll space (u :: ts) ++ .leaf (.ofMark [] '>') :: rest) =
          none := by
        obtain ⟨y, ys, hy, hbegins⟩ := (hplains u List.mem_cons_self).exists_trees space
        rw [treesAll, hy]
        exact hbegins.sign_eq_none _ (c := '>') rfl
      simp only [Option.bind_eq_bind, Option.bind_some, hcomma, hclose, hrest]
      rfl

end Lists

theorem readsBack_path {segments : List String} {arguments : List TypeExpr}
    (hpath : IsPath segments arguments) (hplain : ∀ t ∈ arguments, t.IsPlain)
    (hread : ∀ t ∈ arguments, t.ReadsBack code) : (path segments arguments).ReadsBack code := by
  intro gap rest fuel hrest hfuel
  cases segments with
  | nil => exact absurd rfl hpath.ne_nil
  | cons s segments =>
    obtain ⟨hends, htakes⟩ := hpath.stem
    have hlength := length_le_sizeList_segmentTrees segments
    have htext : textOf (pathTrees gap (s :: segments)) = "::".intercalate (s :: segments) :=
      textOf_pathTrees gap (List.cons_ne_nil _ _)
    rw [trees, pathTrees, List.cons_append, sizeList, Tree.size, sizeList_append] at hfuel
    obtain ⟨fuel, rfl⟩ : ∃ n, fuel = n + 1 + segments.length + 1 + 1 :=
      ⟨fuel - (segments.length + 3), by omega⟩
    have hsimple (after : List Tree) : simpleTypeFuel code (fuel + 1 + segments.length + 1)
        (pathTrees gap (s :: segments) ++ after) = pathFuel code (fuel + 1)
          (pathTrees gap (s :: segments) ++ after) (stemAfter (stemOf s) segments) [] after := by
      rw [← pathFuel_segmentTrees]
      exact simpleTypeFuel_of_beginsPath rfl hpath.first.1
    rw [trees, List.append_assoc]
    refine typeFuel_of_simpleTypeFuel (.word rfl hpath.first.2) hrest ?_
    refine (hsimple _).trans ?_
    cases arguments with
    | nil =>
      rw [List.isEmpty_nil, if_pos rfl, List.nil_append, pathFuel_of_endsType hends hrest,
        consumed_append, htext]
      rfl
    | cons t ts =>
      have hsize : sizeList (if (t :: ts).isEmpty then []
          else .leaf (.ofMark [] '<') :: (treesAll [] (t :: ts) ++ [.leaf (.ofMark [] '>')])) =
          1 + sizeList (treesAll [] (t :: ts) ++ [.leaf (.ofMark [] '>')]) := rfl
      rw [hsize, sizeList_append] at hfuel
      have harguments : argumentsFuel code fuel (treesAll [] (t :: ts) ++
          .leaf (.ofMark [] '>') :: rest) = _ :=
        argumentsFuel_treesAll (List.cons_ne_nil t ts) hplain hread (by omega)
      rw [List.isEmpty_cons, if_neg Bool.false_ne_true, List.cons_append, List.append_assoc,
        List.singleton_append]
      refine (pathFuel_of_argumentsFuel (htakes (List.cons_ne_nil _ _)) hrest harguments).trans ?_
      rw [consumed_append, htext]
      rfl

theorem readsBack_tuple {elements : List TypeExpr} (hplain : ∀ t ∈ elements, t.IsPlain)
    (hread : ∀ t ∈ elements, t.ReadsBack code) : (tuple elements).ReadsBack code := by
  intro gap rest fuel hrest hfuel
  have hsize : sizeList ((tuple elements).trees gap) = sizeList (treesAll [] elements) + 2 := rfl
  obtain ⟨fuel, rfl⟩ : ∃ n, fuel = n + 1 + 1 := ⟨fuel - 2, by omega⟩
  refine typeFuel_of_simpleTypeFuel (.group rfl) hrest ?_
  refine (simpleTypeFuel_group rfl).trans ?_
  cases elements with
  | nil => rfl
  | cons t ts =>
    obtain ⟨x, xs, hx, -⟩ := (hplain t List.mem_cons_self).exists_trees []
    have hne : (treesAll [] (t :: ts)).isEmpty = false := by rw [treesAll, hx]; rfl
    rw [hne, if_neg Bool.false_ne_true,
      typesFuel_treesAll (List.cons_ne_nil t ts) hplain hread (by omega)]
    rfl

theorem readsBack_token (text : String) : (macroCall "Token" text).ReadsBack code := by
  intro gap rest fuel hrest hfuel
  have hsize : sizeList ((macroCall "Token" text).trees gap) =
    1 + (1 + (sizeList (spellingTrees text) + 2 + 0)) := rfl
  obtain ⟨fuel, rfl⟩ : ∃ n, fuel = n + 2 + 1 := ⟨fuel - 3, by omega⟩
  exact typeFuel_of_simpleTypeFuel (beginsType_token gap) hrest
    (simpleTypeFuel_token gap text fuel rest)

theorem IsPlain.readsBack {t : TypeExpr} (h : t.IsPlain) : t.ReadsBack code := by
  induction h with
  | path hpath harguments ih => exact readsBack_path hpath harguments ih
  | tuple _ helements ih => exact readsBack_tuple helements ih
  | @token text _ => exact readsBack_token text

/-- **The tree of a plain type is read off its token trees.** -/
theorem IsPlain.type_trees {t : TypeExpr} (h : t.IsPlain) (gap : List Lexeme) {rest : List Tree}
    (hrest : EndsType rest) : type code (t.trees gap ++ rest) = some (t.node callTokens, rest) := by
  refine h.readsBack gap rest _ hrest ?_
  rw [typeFuelOf, sizeList_append]
  omega

end TypeExpr

end Rust
end NodeSchema
