import NodeSchema.Failure
import NodeSchema.Proofs.Json.Plain

/-!
# Messages in one line

A message is a fixed wording around texts that it quotes as they are (`Failure.quotes`), numbers,
and file names in which line feeds are escaped.  So it is one line unless a text that it quotes is
not (`Failure.isLine_message`).
-/

set_option autoImplicit false

namespace NodeSchema

namespace Text

/-- The text has no line feed. -/
def IsLine (s : String) : Prop := '\n' ∉ s.toList

instance (s : String) : Decidable (IsLine s) := inferInstanceAs (Decidable ('\n' ∉ s.toList))

@[simp] theorem isLine_append {s t : String} : IsLine (s ++ t) ↔ IsLine s ∧ IsLine t := by
  rw [IsLine, String.toList_append, List.mem_append, not_or]
  rfl

/-- A literal is looked at as the list of its characters. -/
theorem IsLine.ofList {cs : List Char} (h : '\n' ∉ cs) : IsLine (String.ofList cs) := by
  rwa [IsLine, String.toList_ofList]

theorem isLine_toString (n : Nat) : IsLine (toString n) := by
  have hdigits : (toString n).toList = Nat.toDigits 10 n := by simp
  rw [IsLine, hdigits]
  exact fun h ↦ absurd (Json.areDigits_toDigits n '\n' h) (by decide)

theorem isLine_intercalate {s : String} {ts : List String} (hs : IsLine s)
    (hts : ∀ t ∈ ts, IsLine t) : IsLine (s.intercalate ts) := by
  induction ts with
  | nil => exact List.not_mem_nil
  | cons t ts ih =>
    rw [List.forall_mem_cons] at hts
    cases ts with
    | nil =>
      rw [String.intercalate_singleton]
      exact hts.1
    | cons u us =>
      rw [String.intercalate_cons_cons, isLine_append, isLine_append]
      exact ⟨⟨hts.1, hs⟩, ih hts.2⟩

/-- A line feed between quotes is escaped. -/
theorem notMem_escapeFor {quote : Char} (hquote : quote ≠ '\n') (c : Char) :
    '\n' ∉ escapeFor quote c := by
  have hhex (count n : Nat) : '\n' ∉ hexDigits count n := Json.notMem_hexDigits (by decide) count n
  have hc : c = '\n' ∨ c ≠ '\n' := eq_or_ne c '\n'
  rcases hc with rfl | hc
  · rw [escapeFor, if_neg (by simpa using hquote.symm), if_pos rfl]
    decide
  · rw [escapeFor]
    split_ifs <;> simp [hhex, hc.symm]

theorem isLine_quoted (s : String) : IsLine (quoted s) := by
  have hquote : quoteFor s.toList ≠ '\n' := by
    rw [quoteFor]
    split <;> decide
  rw [IsLine, quoted, String.toList_ofList]
  refine List.not_mem_append ?_ fun h ↦ hquote (List.mem_singleton.mp h).symm
  refine List.not_mem_cons_of_ne_of_not_mem hquote.symm fun h ↦ ?_
  obtain ⟨c, -, h⟩ := List.mem_flatMap.mp h
  exact notMem_escapeFor hquote c h

end Text

open Text

/-! ## Failures -/

/-- The texts that a complaint quotes. -/
def Complaint.quotes : Complaint → List String
  | .expected t | .expectedDeclaration t | .unexpectedText t | .unexpectedCloser t => [t]
  | .expectedIdentifier | .expectedPath | .expectedString | .expectedPathAttribute
  | .expectedTokenPath | .unexpectedToken | .unexpectedEnd | .unclosedDelimiter
  | .afterDeclaration => []

theorem Complaint.isLine_text (complaint : Complaint) (h : ∀ t ∈ complaint.quotes, IsLine t) :
    IsLine complaint.text := by
  cases complaint with
  | expected t | expectedDeclaration t | unexpectedText t | unexpectedCloser t =>
    exact isLine_append.mpr ⟨isLine_append.mpr ⟨.ofList (by decide), h t List.mem_cons_self⟩,
      .ofList (by decide)⟩
  | expectedIdentifier | expectedPath | expectedString | expectedPathAttribute
  | expectedTokenPath | unexpectedToken | unexpectedEnd | unclosedDelimiter | afterDeclaration =>
    exact .ofList (by decide)

theorem FileFault.isLine_about (fault : FileFault) (path : String) : IsLine (fault.about path) := by
  rw [about, isLine_append, isLine_append]
  refine ⟨⟨?_, .ofList (by decide)⟩, isLine_quoted path⟩
  cases fault <;> exact .ofList (by decide)

namespace Failure

/-- The texts that a message quotes as they are. -/
def quotes : Failure → List String
  | .located path _ complaint => path :: complaint.quotes
  | .incompatibleGates a b => a ++ b
  | .unsupportedVariant i v => [i, v]
  | .twoSpellings s a b => [s, a, b]
  | .unparsable t | .unsupportedCfg t | .unsupportedPredicate t | .unsupportedStruct t
  | .unknownToken t | .unsupportedType t | .missingTypeArgument t | .separatorNotToken t
  | .unknownType t | .aliasCycle t | .noSpellingTable t | .unreadableModule t _ _
  | .unreadableSpellings t _ _ | .crateMissing t | .manifestMissing t | .manifestMalformed t
  | .versionMissing t | .invalidJson t | .notTypeObject t | .unknownTypeTag t
  | .notNodeObject t => [t]
  | .configNotMapping | .gatesNotMapping | .configMalformed | .notSchemaObject
  | .schemaPartsMissing | .unreported _ => []

/-- **A message is one line** unless a text that it quotes is not. -/
theorem isLine_message (f : Failure) (h : ∀ t ∈ f.quotes, IsLine t) : IsLine f.message := by
  cases f with
  | located path place complaint =>
    obtain ⟨hpath, hcomplaint⟩ := List.forall_mem_cons.mp h
    have hplace : IsLine (path ++ ":" ++ toString place.line ++ ":" ++ toString place.column) := by
      simp only [isLine_append]
      exact ⟨⟨⟨⟨hpath, .ofList (by decide)⟩, isLine_toString _⟩, .ofList (by decide)⟩,
        isLine_toString _⟩
    exact isLine_append.mpr ⟨isLine_append.mpr ⟨hplace, .ofList (by decide)⟩,
      complaint.isLine_text hcomplaint⟩
  | incompatibleGates a b =>
    obtain ⟨ha, hb⟩ := List.forall_mem_append.mp h
    show IsLine ("incompatible feature predicates: any(" ++ ", ".intercalate a ++ ") and any("
      ++ ", ".intercalate b ++ ")")
    simp only [isLine_append]
    exact ⟨⟨⟨⟨.ofList (by decide), isLine_intercalate (.ofList (by decide)) ha⟩,
      .ofList (by decide)⟩, isLine_intercalate (.ofList (by decide)) hb⟩, .ofList (by decide)⟩
  | unsupportedVariant i v =>
    show IsLine ("enum representation not supported: " ++ i ++ "::" ++ v)
    simp only [isLine_append]
    exact ⟨⟨⟨.ofList (by decide), h i (by simp [quotes])⟩, .ofList (by decide)⟩,
      h v (by simp [quotes])⟩
  | twoSpellings s a b =>
    show IsLine ("token " ++ s ++ " has two spellings: `" ++ a ++ "` and `" ++ b ++ "`")
    simp only [isLine_append]
    exact ⟨⟨⟨⟨⟨⟨.ofList (by decide), h s (by simp [quotes])⟩, .ofList (by decide)⟩,
      h a (by simp [quotes])⟩, .ofList (by decide)⟩, h b (by simp [quotes])⟩, .ofList (by decide)⟩
  | unreadableModule t fault full =>
    have ht := isLine_append.mpr ⟨h t List.mem_cons_self,
      (.ofList (by decide) : IsLine ": failed to read module file: ")⟩
    exact isLine_append.mpr ⟨ht, fault.isLine_about full⟩
  | unreadableSpellings t fault full =>
    show IsLine ("failed to read token file " ++ t ++ ": " ++ fault.about full)
    simp only [isLine_append]
    exact ⟨⟨⟨.ofList (by decide), h t List.mem_cons_self⟩, .ofList (by decide)⟩,
      fault.isLine_about full⟩
  | unparsable t | noSpellingTable t | versionMissing t =>
    exact isLine_append.mpr ⟨h t List.mem_cons_self, .ofList (by decide)⟩
  | unsupportedCfg t | unsupportedPredicate t | unsupportedStruct t | unknownToken t
  | unsupportedType t | missingTypeArgument t | separatorNotToken t | unknownType t
  | aliasCycle t | crateMissing t | manifestMissing t | manifestMalformed t | invalidJson t
  | notTypeObject t | unknownTypeTag t | notNodeObject t =>
    exact isLine_append.mpr ⟨.ofList (by decide), h t List.mem_cons_self⟩
  | unreported fault => exact .ofList (by decide)
  | configNotMapping | gatesNotMapping | configMalformed | notSchemaObject | schemaPartsMissing =>
    decide

end Failure
end NodeSchema
