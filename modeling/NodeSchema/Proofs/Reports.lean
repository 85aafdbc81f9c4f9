import NodeSchema.Crawl
import NodeSchema.Proofs.Result

/-!
# Computations that report their failures

A failure that is told with a diagnostic is reported; a fault is not.  A computation reports if none
of its failures is a fault (`Reports`), and reports but for some faults if every fault that it ends
with is one of those (`ReportsBut`).  Once the texts are there, what an extraction does with them
reports: reading the gates on declarations, reading the table of spellings, and assembling the
schema.  Reading the items of a source text and recognising declarations in them report but for a
text that nests too deep for the parser.
-/

set_option autoImplicit false

namespace NodeSchema

open Rust

variable {α β : Type}

/-- No failure of the computation is a fault that no command reports. -/
def Reports (x : Except Failure α) : Prop :=
  ∀ fault, x ≠ .error (.unreported fault)

/-- Every fault that the computation ends with is one of `P`. -/
def ReportsBut (P : Fault → Prop) (x : Except Failure α) : Prop :=
  ∀ fault, x = .error (.unreported fault) → P fault

theorem reports_ok (a : α) : Reports (.ok a : Except Failure α) := by
  intro fault h
  cases h

theorem reports_error {f : Failure} (h : ∀ fault, f ≠ .unreported fault) :
    Reports (.error f : Except Failure α) := by
  intro fault hf
  exact h fault (Except.error.inj hf)

theorem reports_located (path : String) (place : Text.Position) (complaint : Complaint) :
    Reports (.error (.located path place complaint) : Except Failure α) :=
  reports_error (by simp)

theorem Reports.bind {x : Except Failure α} {f : α → Except Failure β} (hx : Reports x)
    (hf : ∀ a, Reports (f a)) : Reports (x >>= f) := by
  intro fault h
  rcases bind_eq_error.mp h with h | ⟨a, -, h⟩
  · exact hx fault h
  · exact hf a fault h

theorem Reports.map {x : Except Failure α} (hx : Reports x) (f : α → β) : Reports (x.map f) := by
  intro fault h
  exact hx fault (map_eq_error.mp h)

theorem Reports.mapM {f : α → Except Failure β} {as : List α} (h : ∀ a ∈ as, Reports (f a)) :
    Reports (as.mapM f) := by
  intro fault hfault
  obtain ⟨before, a, after, rfl, -, ha⟩ := mapM_eq_error.mp hfault
  exact h a (List.mem_append_right before List.mem_cons_self) fault ha

section ReportsBut

variable {P : Fault → Prop}

theorem Reports.but {x : Except Failure α} (hx : Reports x) : ReportsBut P x :=
  fun fault h ↦ absurd h (hx fault)

theorem ReportsBut.bind {x : Except Failure α} {f : α → Except Failure β} (hx : ReportsBut P x)
    (hf : ∀ a, ReportsBut P (f a)) : ReportsBut P (x >>= f) := by
  intro fault h
  rcases bind_eq_error.mp h with h | ⟨a, -, h⟩
  · exact hx fault h
  · exact hf a fault h

theorem ReportsBut.map {x : Except Failure α} (hx : ReportsBut P x) (f : α → β) :
    ReportsBut P (x.map f) := by
  intro fault h
  exact hx fault (map_eq_error.mp h)

end ReportsBut

/-! ## Source texts -/

namespace Rust

theorem SyntaxError.eq_tooDeep_of_failure {path : String} {complain : Nat → Complaint → Failure}
    (hcomplain : ∀ offset complaint fault, complain offset complaint ≠ .unreported fault)
    {e : SyntaxError} {fault : Fault} (h : e.failure path complain = .unreported fault) :
    e = .tooDeep ∧ fault = .endless := by
  cases e with
  | located offset complaint => exact absurd h (hcomplain offset complaint fault)
  | unlocated => cases h
  | tooDeep =>
    cases h
    exact ⟨rfl, rfl⟩

section FileParser

variable [FileParser]

/-- A text for which the parser nests too deep. -/
def IsTooDeep (bytes : List UInt8) : Prop := FileParser.parse bytes = .error .tooDeep

/-- **Reading a source text reports** unless the text nests too deep. -/
theorem Source.reportsBut_items (s : Source) :
    ReportsBut (fun fault ↦ fault = .endless ∧ IsTooDeep s.bytes) s.items := by
  intro fault h
  rw [Source.items] at h
  split at h
  · cases h
  · next e heq =>
    obtain ⟨rfl, rfl⟩ := SyntaxError.eq_tooDeep_of_failure (fun _ _ _ h ↦ by cases h)
      (Except.error.inj h)
    exact ⟨rfl, heq⟩

theorem Snippet.reportsBut_item (s : Snippet) (kind : String) :
    ReportsBut (fun fault ↦ fault = .endless ∧ IsTooDeep s.bytes) (s.item kind) := by
  intro fault h
  rw [Snippet.item] at h
  split at h
  · next e heq =>
    obtain ⟨rfl, rfl⟩ := SyntaxError.eq_tooDeep_of_failure (fun _ _ _ h ↦ by cases h)
      (Except.error.inj h)
    exact ⟨rfl, heq⟩
  · dsimp only at h
    split at h
    · cases h
    · split at h <;> cases h

end FileParser

theorem Attribute.reports_path (source : Source) (attributes : List Attribute) :
    Reports (Attribute.path source attributes) := by
  rw [Attribute.path]
  split
  · exact reports_ok _
  · split
    · exact reports_ok _
    · exact reports_located _ _ _

namespace Cursor

theorem reports_fail (c : Cursor) (complaint : Complaint) :
    Reports (c.fail complaint : Except Failure α) := reports_located _ _ _

theorem reports_next (c : Cursor) : Reports c.next := by
  rw [next]
  split
  · exact reports_ok _
  · exact c.reports_fail _

theorem reports_expect (c : Cursor) (text : String) : Reports (c.expect text) := by
  rw [expect]
  split
  · exact c.reports_next
  · exact c.reports_fail _

theorem reports_expectIdentifier (c : Cursor) : Reports c.expectIdentifier := by
  rw [expectIdentifier]
  split
  · split
    · exact reports_ok _
    · exact c.reports_fail _
  · exact c.reports_fail _

theorem reports_expectGroup (c : Cursor) (opener : String) : Reports (c.expectGroup opener) := by
  rw [expectGroup]
  split
  · split
    · exact reports_ok _
    · exact c.reports_fail _
  · exact c.reports_fail _

theorem reports_expectEnd (c : Cursor) : Reports c.expectEnd := by
  rw [expectEnd]
  split
  · exact reports_ok _
  · exact c.reports_fail _

end Cursor

end Rust

/-! ## Declarations -/

namespace Declaration

theorem reports_ofStruct (ident : String) (body : StructBody) : Reports (ofStruct ident body) := by
  cases body with
  | named fields => exact reports_ok _
  | unit => exact reports_ok _
  | positional => exact reports_error (by simp)

theorem reports_ofVariant (ident : String) (v : Attributed Variant) :
    Reports (ofVariant ident v) := by
  rw [ofVariant]
  split
  · exact reports_ok _
  · exact reports_ok _
  · exact reports_error (by simp)

theorem reports_ofEnum (ident : String) (attributes : List Attribute)
    (variants : List (Entry Variant)) : Reports (ofEnum ident attributes variants) := by
  rw [ofEnum]
  exact (Reports.mapM fun v _ ↦ reports_ofVariant ident v).bind fun vs ↦ reports_ok _

theorem reports_copyEntries (fuel : Nat) (c : Cursor) (s : Snippet) :
    Reports (copyEntries fuel c s) := by
  induction fuel generalizing c s with
  | zero => exact reports_ok s
  | succ fuel ih =>
    rw [copyEntries]
    split
    · exact reports_ok s
    · refine (Cursor.reports_expectIdentifier _).bind fun name ↦ ?_
      dsimp only
      split
      · split
        · split
          · exact (Cursor.reports_expect _ _).bind fun comma ↦ ih _ _
          · exact reports_located _ _ _
        · exact (Cursor.reports_expect _ _).bind fun comma ↦ ih _ _
      · exact (Cursor.reports_expect _ _).bind fun comma ↦ ih _ _

section FileParser

variable [FileParser]

theorem reportsBut_item (s : Snippet) (kind : String) :
    ReportsBut (· = .endless) (s.item kind) :=
  fun fault h ↦ (s.reportsBut_item kind fault h).1

theorem reportsBut_recognizeStruct (source : Source) (g : Tree) :
    ReportsBut (· = .endless) (recognizeStruct source g) := by
  rw [recognizeStruct]
  refine (Cursor.reports_expect _ _).but.bind fun keyword ↦ ?_
  refine (Cursor.reports_expect _ _).but.bind fun kind ↦ ?_
  refine (Cursor.reports_expectIdentifier _).but.bind fun ident ↦ ?_
  refine (reportsBut_item _ _).bind fun i ↦ ?_
  split
  · exact ((reports_ofStruct _ _).bind fun d ↦ reports_ok _).but
  · exact (reports_error (by simp)).but

theorem reportsBut_enumOf (s : Snippet) : ReportsBut (· = .endless) (enumOf s) := by
  rw [enumOf]
  refine (reportsBut_item s _).bind fun i ↦ ?_
  split
  · exact (reports_ofEnum _ _ _).but
  · exact (reports_error (by simp)).but

theorem reportsBut_recognizeEnum (source : Source) (g : Tree) :
    ReportsBut (· = .endless) (recognizeEnum source g) := by
  rw [recognizeEnum]
  refine (Cursor.reports_expect _ _).but.bind fun keyword ↦ ?_
  refine (Cursor.reports_expect _ _).but.bind fun kind ↦ ?_
  refine (Cursor.reports_expectIdentifier _).but.bind fun ident ↦ ?_
  dsimp only
  split
  · exact (reports_ok _).but
  · exact (reportsBut_enumOf _).bind fun d ↦ (reports_ok _).but

theorem reportsBut_recognizeEnumOfStructs (source : Source) (g : Tree) :
    ReportsBut (· = .endless) (recognizeEnumOfStructs source g) := by
  rw [recognizeEnumOfStructs]
  refine (Cursor.reports_expect _ _).but.bind fun keyword ↦ ?_
  refine (Cursor.reports_expect _ _).but.bind fun kind ↦ ?_
  refine (Cursor.reports_expectIdentifier _).but.bind fun ident ↦ ?_
  refine (Cursor.reports_expectGroup _ _).but.bind fun body ↦ ?_
  refine (Cursor.reports_expectEnd _).but.bind fun _ ↦ ?_
  exact (reports_copyEntries _ _ _).but.bind fun s ↦ reportsBut_enumOf _

/-- **Recognising a declaration reports** unless what is rebuilt from the call nests too deep. -/
theorem reportsBut_recognize (source : Source) (call : MacroCall) :
    ReportsBut (· = .endless) (recognize source call) := by
  rw [recognize]
  split
  · exact (reportsBut_recognizeStruct _ _).map _
  · exact reportsBut_recognizeEnum _ _
  · exact (reportsBut_recognizeEnumOfStructs _ _).map _
  · exact (reports_ok _).but

end FileParser

end Declaration

/-! ## Gates -/

theorem Features.reports_merge? (f g : Features) : Reports (f.merge? g) := by
  rw [Features.merge?]
  split_ifs
  · exact reports_ok _
  · exact reports_ok _
  · exact reports_ok _
  · exact reports_ok _
  · exact reports_error (by simp)

theorem Declaration.reports_gated (d : Declaration) (gate : Features) : Reports (d.gated gate) :=
  (d.features.reports_merge? gate).map _

theorem Cfg.reports_ofAttribute (a : Attribute) : Reports (Cfg.ofAttribute a) := by
  rw [Cfg.ofAttribute]
  split
  · split
    · split
      · exact reports_ok _
      · exact reports_error (by simp)
    · exact reports_error (by simp)
  · exact reports_error (by simp)

theorem Cfg.reports_combineFrom (current : Features) (attributes : List Attribute) :
    Reports (Cfg.combineFrom current attributes) := by
  induction attributes generalizing current with
  | nil => exact reports_ok current
  | cons a attributes ih =>
    rw [Cfg.combineFrom]
    exact (Cfg.reports_ofAttribute a).bind fun f ↦ (current.reports_merge? f).bind ih

namespace Gate

theorem reports_read (g : Gate) : Reports g.read := by
  cases g with
  | known f => exact reports_ok f
  | written attributes => exact Cfg.reports_combineFrom _ _

theorem reports_resolveFrom (current : Features) (gates : List Gate) :
    Reports (resolveFrom current gates) := by
  induction gates generalizing current with
  | nil => exact reports_ok current
  | cons g gates ih =>
    rw [resolveFrom]
    exact g.reports_read.bind fun f ↦ (current.reports_merge? f).bind ih

theorem reports_resolve (gates : List Gate) : Reports (resolve gates) := reports_resolveFrom _ gates

end Gate

/-- **Recording a declaration reports.** -/
theorem Crate.reports_record (l : Lookup) (d : Declaration) (gates : List Gate) :
    Reports (Crate.record l d gates).result := by
  rw [Crate.record, Logged.result_bind]
  refine Reports.bind (Gate.reports_resolve gates) fun gate ↦ ?_
  rw [Logged.result_bind]
  refine Reports.bind (d.reports_gated gate) fun d ↦ ?_
  dsimp only
  split
  · rw [Logged.result_bind]
    exact Reports.bind (reports_ok _) fun _ ↦ reports_ok _
  · exact reports_ok _

/-! ## Spellings -/

namespace Spelling

namespace File

theorem reports_closing (f : File) (start : Nat) : Reports (f.closing start) := by
  rw [closing]
  split
  · exact reports_located _ _ _
  · split
    · exact reports_ok _
    · exact reports_located _ _ _
    · exact reports_located _ _ _

theorem reports_findTableFrom (f : File) (skip index : Nat) (ls : List Lexeme) :
    Reports (f.findTableFrom skip index ls) := by
  induction ls generalizing skip index with
  | nil =>
    rw [findTableFrom]
    exact reports_ok none
  | cons l ls ih =>
    cases skip with
    | succ skip => exact ih skip (index + 1)
    | zero =>
      rw [findTableFrom]
      split
      · exact (f.reports_closing _).map _
      · split
        · have hclosing := f.reports_closing index
          split
          · exact ih _ _
          · next heq =>
            rw [heq] at hclosing
            intro fault h
            exact hclosing fault (congrArg Except.error (Except.error.inj h))
        · exact ih _ _

end File

theorem reports_rule (f : File) (index : Nat) : Reports (rule f index) := by
  rw [rule]
  split
  · exact reports_located _ _ _
  · refine (f.reports_closing _).bind fun close ↦ ?_
    dsimp only
    split
    · exact reports_located _ _ _
    · split
      · exact reports_located _ _ _
      · refine (f.reports_closing _).bind fun stop ↦ ?_
        split
        · exact reports_located _ _ _
        · exact reports_ok _

theorem reports_rulesFrom (f : File) (stop fuel index : Nat) (table : Table String) :
    Reports (rulesFrom f stop fuel index table) := by
  induction fuel generalizing index table with
  | zero => exact reports_ok table
  | succ fuel ih =>
    rw [rulesFrom]
    split
    · refine (reports_rule f index).bind fun r ↦ ?_
      dsimp only
      split
      · split
        · exact ih _ _
        · exact reports_located _ _ _
      · exact reports_ok _
    · exact reports_ok table

/-- **Reading a table of spellings reports.** -/
theorem reports_ofFile (f : File) : Reports (ofFile f) := by
  rw [ofFile]
  refine (f.reports_findTableFrom _ _ _).bind fun range ↦ ?_
  split
  · exact reports_rulesFrom _ _ _ _ _
  · exact reports_error (by simp)

theorem reports_invertFrom (inverted : Table String) (entries : List (String × String)) :
    Reports (invertFrom inverted entries) := by
  induction entries generalizing inverted with
  | nil => exact reports_ok inverted
  | cons e entries ih =>
    rw [invertFrom]
    split
    · split
      · exact ih _
      · exact reports_error (by simp)
    · exact ih _

theorem reports_invert (table : Table String) : Reports (invert table) :=
  (reports_invertFrom _ _).map _

end Spelling

/-! ## Schemas -/

theorem Alias.reports_resolveFrom (aliases : Table String) (known : String → Bool) (start : String)
    (fuel : Nat) (seen : List String) (current : String) :
    Reports (Alias.resolveFrom aliases known start fuel seen current) := by
  induction fuel generalizing seen current with
  | zero => exact reports_error (by simp)
  | succ fuel ih =>
    rw [Alias.resolveFrom]
    split
    · exact reports_ok current
    · split
      · exact reports_error (by simp)
      · split
        · exact reports_error (by simp)
        · exact ih _ _

namespace Scope

theorem reports_named (s : Scope) (name : String) : Reports (s.named name) := by
  rw [named]
  split_ifs
  · exact reports_ok _
  · exact reports_ok _
  · exact reports_ok _
  · exact (Alias.reports_resolveFrom _ _ _ _ _ _).map _

theorem reports_typeArgument (shown : String) (written : Option TypeExpr)
    {found : Option (Except Failure SchemaType)} (h : ∀ r ∈ found, Reports r) :
    Reports (typeArgument shown written found) := by
  rw [typeArgument.eq_def]
  split
  · exact reports_error (by simp)
  · exact reports_error (by simp)
  · exact reports_error (by simp)
  · exact h _ rfl

mutual
/-- **Looking up a type reports.** -/
theorem reports_introspect (s : Scope) : ∀ t : TypeExpr, Reports (s.introspect t)
  | .path segments arguments => by
    have hall := reports_introspectAll s arguments
    have hfirst := reports_typeArgument (TypeExpr.path segments arguments).describe arguments.head?
      fun r hr ↦ hall r (List.mem_of_mem_head? hr)
    have hlast := reports_typeArgument (TypeExpr.path segments arguments).describe
      arguments.getLast? fun r hr ↦ hall r (List.mem_of_mem_getLast? hr)
    rw [introspect]
    split
    · exact hfirst.map _
    · split
      · split
        · next heq => exact fun fault h ↦ hfirst fault (heq.trans (congrArg _ (Except.error.inj h)))
        · next heq => exact fun fault h ↦ hlast fault (heq.trans (congrArg _ (Except.error.inj h)))
        · exact reports_ok _
        · exact reports_error (by simp)
      · split
        · exact hfirst.map _
        · split
          · exact hfirst.map _
          · exact s.reports_named _
  | .tuple elements => by
    rw [introspect]
    exact (Reports.mapM fun r hr ↦ reports_introspectAll s elements r hr).map _
  | .macroCall name tokens => by
    rw [introspect]
    split
    · split
      · exact reports_ok _
      · exact reports_error (by simp)
    · exact reports_error (by simp)
  | .argument text | .other text => by
    rw [introspect]
    exact reports_error (by simp)
theorem reports_introspectAll (s : Scope) :
    ∀ ts : List TypeExpr, ∀ r ∈ s.introspectAll ts, Reports r
  | [], r, h => by cases h
  | t :: ts, r, h => by
    rcases List.mem_cons.mp h with rfl | h
    · exact reports_introspect s t
    · exact reports_introspectAll s ts r h
end

theorem reports_node (s : Scope) (d : Declaration) : Reports (s.node d) := by
  rw [node]
  split
  · split
    · exact (Reports.mapM fun f _ ↦ (s.reports_introspect f.type).map _).map _
    · exact reports_ok _
  · refine (Reports.mapM fun v _ ↦ ?_).map _
    exact (Reports.mapM fun t _ ↦ s.reports_introspect t).map _

end Scope

/-- **Assembling a schema reports.** -/
theorem Lookup.reports_assemble (l : Lookup) (tokens : Table String) (leaves : LeafTables)
    (version : String) : Reports (l.assemble tokens leaves version).result := by
  rw [Lookup.assemble, Logged.result_bind]
  refine Reports.bind (Reports.mapM fun e _ ↦ Scope.reports_node _ _) fun nodes ↦ ?_
  rw [Logged.result_bind]
  refine Reports.bind (reports_ok _) fun _ ↦ ?_
  rw [Logged.result_bind]
  exact Reports.bind (Spelling.reports_invert tokens) fun spellings ↦ reports_ok _

end NodeSchema
