import NodeSchema.Proofs.Layout.Rust
import NodeSchema.Proofs.Layout.Spelling
import NodeSchema.Schema.Introspect

/-!
# The two readings of a spelling agree

The table of spellings is read by one lexer and a type that mentions a token by another, and they
meet in a lookup of the very same text.  Both leave out the gaps of a layout, so a spelling that the
table has in one layout is found in every other (`token_of_layouts`).

They differ in what a gap is made of: a spelling file takes every blank character, source text only
the ASCII ones (`layout_nextLine`).
-/

set_option autoImplicit false

namespace NodeSchema

open Text Rust Spelling

/-- **A spelling is found in all its layouts.**  A table that holds the rule of one layout maps the
elements with nothing between them to the symbol; the call of the token macro on another layout,
with gaps that the parser passes over, has them as its tokens; so looking it up gives the symbol. -/
theorem token_of_layouts [FileParser] {isGap : Char → Bool}
    (hparser : FileParser.ReadsCalls isGap) {es : List Element} (hes : ∀ e ∈ es, e.IsProper)
    {layout layout' : List Char} (hlays : Lays isBlank es layout) (hlays' : Lays isGap es layout')
    (hcomment : IsUncommented layout) (hcomment' : IsUncommented layout') {symbol : String}
    (hsymbol : IsName symbol.toList) {path : String} {text : List Char} {start stop : Nat}
    (hrule : (File.ofText path text).HoldsRule start stop layout symbol.toList) :
    let spelling := String.ofList (Element.joined es)
    ofFile (.ofText path text) = .ok ⟨[(spelling, symbol)]⟩ ∧
      parseType (callText layout') = .ok (.macroCall "Token" spelling) ∧
      ∀ scope : Scope, ofFile (.ofText path text) = .ok scope.tokens →
        parseType (callText layout') >>= scope.introspect = .ok (.token symbol) := by
  intro spelling
  have hspelling : String.ofList (removeBlanks layout) = spelling :=
    congrArg String.ofList (hlays.filter_eq (fun _ h ↦ h) hes)
  have hspelling' : String.ofList (layout'.filter fun c ↦ !isGap c) = spelling :=
    congrArg String.ofList (hlays'.filter_eq hparser.isBlank hes)
  have htable := ofFile_of_holdsRule (hlays.isLayoutChar hes) hcomment hsymbol hrule
  rw [hspelling] at htable
  have htype : parseType (callText layout') = .ok (.macroCall "Token" spelling) := by
    obtain ⟨i, g, hparse, hbody, htokens⟩ := hparser.reads es layout' hes hlays' hcomment'
    have hname : TypeExpr.lastSegment (segmentsOf "Token") = "Token" := by decide
    rw [parseType_of_parse hparse hbody, TypeNode.expr, hname, htokens.renderBody_eq, hspelling']
  refine ⟨htable, htype, fun scope hscope ↦ ?_⟩
  have htokens : scope.tokens = ⟨[(spelling, symbol)]⟩ := Except.ok.inj (hscope.symm.trans htable)
  have hfind : scope.tokens.find? spelling = some symbol := by
    rw [htokens]
    simp [Table.find?]
  rw [htype]
  show scope.introspect (.macroCall "Token" spelling) = _
  rw [Scope.introspect, hfind]
  rfl

/-- A file with the rule of a spelling of two characters. -/
def plusEqFile : File :=
  .ofText "token.rs" "macro_rules! Token \x7b [+ =] => \x7b $crate::PlusEq \x7d; \x7d".toList

theorem token_of_layouts_plusEq : Grammar.fileParser.ReadsCalls Rust.Lexeme.isSpace ∧
    plusEqFile.HoldsRule 4 18 "+ =".toList "PlusEq".toList ∧
      ofFile plusEqFile = .ok ⟨[("+=", "PlusEq")]⟩ ∧
      parseType "Token![ +\t= ]" = .ok (.macroCall "Token" "+=") := by
  have hproper : ∀ e ∈ [Element.operator '+', .operator '='], e.IsProper := by decide
  have hlays : Lays isBlank [.operator '+', .operator '='] "+ =".toList :=
    @Lays.cons isBlank [] [' ', '='] _ _ nofun
      (@Lays.cons isBlank [' '] [] _ _ (List.forall_mem_singleton.mpr rfl) (.nil nofun) nofun) nofun
  have hlays' : Lays Rust.Lexeme.isSpace [.operator '+', .operator '='] " +\t= ".toList :=
    @Lays.cons _ [' '] ['\t', '=', ' '] _ _ (List.forall_mem_singleton.mpr rfl)
      (@Lays.cons _ ['\t'] [' '] _ _ (List.forall_mem_singleton.mpr rfl)
        (.nil (List.forall_mem_singleton.mpr rfl)) nofun) nofun
  have hrule : plusEqFile.HoldsRule 4 18 "+ =".toList "PlusEq".toList :=
    ⟨by decide +kernel, 21, by decide +kernel⟩
  have hsymbol : IsName "PlusEq".toList := .mk rfl (List.all_eq_true.mp (by decide +kernel))
  have h := token_of_layouts Grammar.readsCalls hproper hlays hlays' (by decide) (by decide) hsymbol
    hrule
  exact ⟨Grammar.readsCalls, hrule, h.1, h.2.1⟩

/-- A file with the rule of a symbol that begins with no ASCII letter. -/
def accentFile : File :=
  .ofText "token.rs" "macro_rules! Token \x7b [+] => \x7b $crate::É \x7d; \x7d".toList

/-- **Symbols begin with fewer letters, and source text has fewer blank characters.**  A symbol has
to begin with an ASCII letter or the underscore, which an identifier need not.  The next-line
character may stand in a layout of a spelling file, but a type with it cannot be read. -/
theorem layout_nextLine :
    (isIdentStart 'É' = true ∧ accentFile.HoldsRule 4 17 ['+'] ['É'] ∧
      ofFile accentFile = .error (accentFile.complain 9 .expectedTokenPath)) ∧
    Lays isBlank [.operator '+'] ['\u0085', '+'] ∧ IsUncommented ['\u0085', '+'] ∧
      @parseType Grammar.fileParser (callText ['\u0085', '+']) =
        .error (.unparsable typePath) := by
  have hrule : accentFile.HoldsRule 4 17 ['+'] ['É'] :=
    ⟨by decide +kernel, 21, by decide +kernel⟩
  refine ⟨⟨by decide +kernel, hrule, by decide +kernel⟩, ?_, by decide, by decide +kernel⟩
  exact @Lays.cons isBlank ['\u0085'] [] _ _ (List.forall_mem_singleton.mpr (by decide +kernel))
    (.nil nofun) nofun

end NodeSchema
