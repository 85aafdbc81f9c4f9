import NodeSchema.Proofs.Extraction.Faults
import NodeSchema.Proofs.Failure
import NodeSchema.Proofs.Run.Check

/-!
# How a run ends

A run ends well, or with one diagnostic and status 1, or with a fault that it does not report
(`Command.ends_or_tripsOver`).  The faults are those that `Command.TripsOver` lists, each at its
turn: the log cannot be written, the system does not tell the directory that a path begins in, the
extraction trips over one of its texts, paths and modules, or the output cannot be compared, written
or printed.  Every other failure is told, in one line unless a text that it quotes takes more.
-/

set_option autoImplicit false

namespace NodeSchema

open Run

variable {tree : FileTree} {cwd : Path} {fault : Fault}

/-! ## Diagnostics -/

/-- The diagnostics of runs, each with the texts that it quotes: a failure that is reported, and an
output that is not up to date. -/
inductive Run.Diagnostic (cwd : Path) : String → List String → Prop
  | failure {f : Failure} (h : ∀ fault, f ≠ .unreported fault) :
      Diagnostic cwd (programName ++ ": " ++ f.message) f.quotes
  | outOfDate (p : Path) : Diagnostic cwd (shown cwd p ++ " is out of date") [shown cwd p]

/-- A diagnostic is one line unless a text that it quotes is not. -/
theorem Run.Diagnostic.isLine {d : String} {quotes : List String} (h : Diagnostic cwd d quotes)
    (hquotes : ∀ t ∈ quotes, Text.IsLine t) : Text.IsLine d := by
  cases h with
  | failure _ => exact Text.isLine_append.mpr ⟨by decide, Failure.isLine_message _ hquotes⟩
  | outOfDate p => exact Text.isLine_append.mpr ⟨hquotes _ List.mem_cons_self, by decide⟩

/-- How a run ends that tells the given events: well, or with one diagnostic. -/
inductive Outcome.Ends (cwd : Path) (events : List Event) (o : Outcome) : Prop
  | well (hstatus : o.status = .ok 0)
      (hlog : o.diagnostics = String.join (events.map consoleLine)) : Ends cwd events o
  | diagnosed {d : String} {quotes : List String} (hstatus : o.status = .ok 1)
      (hlog : o.diagnostics = String.join (events.map consoleLine) ++ d ++ "\n")
      (h : Diagnostic cwd d quotes) (hline : (∀ t ∈ quotes, Text.IsLine t) → Text.IsLine d) :
      Ends cwd events o

theorem Outcome.ends_of_diagnostic {events : List Event} {o : Outcome} {d : String}
    {quotes : List String} (hstatus : o.status = .ok 1)
    (hlog : o.diagnostics = String.join (events.map consoleLine) ++ d ++ "\n")
    (h : Diagnostic cwd d quotes) : o.Ends cwd events :=
  .diagnosed hstatus hlog h h.isLine

namespace Run

variable {events : List Event}

theorem status_fail_eq_error_iff {log : String} {f : Failure} :
    (fail tree log f).status = .error fault ↔ f = .unreported fault := by
  cases f with
  | unreported f => exact ⟨fun h ↦ by cases h; rfl, fun h ↦ by cases h; rfl⟩
  | _ => exact ⟨fun h ↦ (by cases h), fun h ↦ (by cases h)⟩

/-- A failure ends a run with a fault or with a diagnostic. -/
theorem fail_status_ends (tree : FileTree) (cwd : Path) (events : List Event) (f : Failure) :
    let o := fail tree (String.join (events.map consoleLine)) f
    (∀ fault, o.status = .error fault ↔ f = .unreported fault) ∧
      ((∃ fault, o.status = .error fault) ∨ ∃ events, o.Ends cwd events) := by
  refine ⟨fun fault ↦ status_fail_eq_error_iff, ?_⟩
  cases f with
  | unreported fault => exact .inl ⟨fault, rfl⟩
  | _ => exact .inr ⟨events, Outcome.ends_of_diagnostic rfl rfl (.failure (by simp))⟩

/-! ## The output -/

/-- Why an output cannot be compared: its name cannot be looked up, or its text cannot be had. -/
inductive IsIncomparable (tree : FileTree) (p : Path) : Fault → Prop
  | name (hpath : FileTree.isAskable p = true) (h : tree.place p = .error .nameTooLong) :
      IsIncomparable tree p (.file .nameTooLong)
  | text {fault : Fault} (hthere : tree.has p = true) (h : tree.Withholds p fault) :
      IsIncomparable tree p fault

theorem isCurrent_eq_error_iff {p : Path} {text : String} {f : Failure} :
    isCurrent tree p text = .error f ↔
      ∃ fault, f = .unreported fault ∧ IsIncomparable tree p fault := by
  rw [isCurrent]
  split
  · next hpath hplace =>
    constructor
    · intro h
      exact ⟨_, (Except.error.inj h).symm, .name hpath hplace⟩
    · rintro ⟨fault, rfl, h⟩
      cases h with
      | name _ _ => rfl
      | text hthere _ =>
        rw [FileTree.has, hplace] at hthere
        cases hthere
  · next hname =>
    split
    · next hthere =>
      rw [map_eq_error, FileTree.readText_eq_error_iff]
      constructor
      · rintro ⟨fault, rfl, h⟩
        exact ⟨fault, rfl, .text hthere h⟩
      · rintro ⟨fault, rfl, h⟩
        cases h with
        | name hpath hplace => exact absurd hplace (hname hpath)
        | text _ h => exact ⟨fault, rfl, h⟩
    · next hthere =>
      constructor
      · intro h
        cases h
      · rintro ⟨fault, rfl, h⟩
        cases h with
        | name hpath hplace => exact absurd hplace (hname hpath)
        | text hthere' _ => exact absurd hthere' hthere

section Host

variable [Host]

/-- A text that is printed ends a run well, or the run cannot print it. -/
theorem finish_ends (tree : FileTree) (cwd : Path) (events : List Event) (output : String) :
    let o := finish tree (String.join (events.map consoleLine)) output
    (∀ fault, o.status = .error fault ↔ Host.print output = .error fault) ∧
      ((∃ fault, o.status = .error fault) ∨ o.Ends cwd events) := by
  dsimp only
  rw [finish]
  cases Host.print output with
  | ok _ =>
    exact ⟨fun fault ↦ ⟨fun h ↦ (by cases h), fun h ↦ (by cases h)⟩, .inr (.well rfl rfl)⟩
  | error f =>
    refine ⟨fun fault ↦ ⟨fun h ↦ ?_, fun h ↦ ?_⟩, .inl ⟨f, rfl⟩⟩
    · exact congrArg _ (Except.error.inj h)
    · exact congrArg _ (Except.error.inj h)

/-- A run that tells of its output ends well, or is muted. -/
theorem tell_finish_ends (tree : FileTree) (cwd p : Path) (events : List Event)
    (line : String → String) :
    let log := String.join (events.map consoleLine)
    let o := tell tree cwd p log fun name ↦ finish tree log (line name)
    (∀ fault, o.status = .error fault ↔ IsMuted (line (shown cwd p)) fault) ∧
      ((∃ fault, o.status = .error fault) ∨ o.Ends cwd events) := by
  dsimp only
  rw [tell]
  cases hdirectory : Host.directory with
  | error f =>
    refine ⟨fun fault ↦ ⟨fun h ↦ ?_, fun h ↦ ?_⟩, .inl ⟨f, rfl⟩⟩
    · cases h
      exact .directory hdirectory
    · cases h with
      | directory h => exact congrArg _ (Except.error.inj (hdirectory.symm.trans h))
      | print h _ => cases hdirectory.symm.trans h
  | ok _ =>
    obtain ⟨hstatus, hends⟩ := finish_ends tree cwd events (line (shown cwd p))
    refine ⟨fun fault ↦ (hstatus fault).trans ⟨.print hdirectory, fun h ↦ ?_⟩, hends⟩
    cases h with
    | directory h => cases hdirectory.symm.trans h
    | print _ h => exact h

/-- What stops a run when the text of the schema is there and not to be printed: the output cannot
be compared or written, or the run cannot tell what has come of it. -/
inductive TripsOver (tree : FileTree) (cwd p : Path) (text : String) : Bool → Fault → Prop
  | compared {fault : Fault} (h : IsIncomparable tree p fault) :
      TripsOver tree cwd p text true fault
  | current {fault : Fault} (hcurrent : isCurrent tree p text = .ok true)
      (h : IsMuted (currentLine (shown cwd p)) fault) : TripsOver tree cwd p text true fault
  | stale {fault : Fault} (hstale : isCurrent tree p text = .ok false)
      (h : Host.directory = .error fault) : TripsOver tree cwd p text true fault
  | unwritten {made : FileTree} {fault : Fault}
      (h : writeText tree p text = (made, .error fault)) : TripsOver tree cwd p text false fault
  | written {made : FileTree} {fault : Fault} (hwritten : writeText tree p text = (made, .ok ()))
      (h : IsMuted (writtenLine (shown cwd p)) fault) : TripsOver tree cwd p text false fault

theorem tripsOver_true_iff {p : Path} {text : String} :
    TripsOver tree cwd p text true fault ↔
      isCurrent tree p text = .error (.unreported fault) ∨
      (isCurrent tree p text = .ok true ∧ IsMuted (currentLine (shown cwd p)) fault) ∨
      (isCurrent tree p text = .ok false ∧ Host.directory = .error fault) := by
  constructor
  · intro h
    cases h with
    | compared h => exact .inl (isCurrent_eq_error_iff.mpr ⟨fault, rfl, h⟩)
    | current hcurrent h => exact .inr (.inl ⟨hcurrent, h⟩)
    | stale hstale h => exact .inr (.inr ⟨hstale, h⟩)
  · rintro (h | ⟨hcurrent, h⟩ | ⟨hstale, h⟩)
    · obtain ⟨_, ⟨⟩, h⟩ := isCurrent_eq_error_iff.mp h
      exact .compared h
    · exact .current hcurrent h
    · exact .stale hstale h

theorem tripsOver_false_iff {p : Path} {text : String} :
    TripsOver tree cwd p text false fault ↔
      (∃ made, writeText tree p text = (made, .error fault)) ∨
      ((∃ made, writeText tree p text = (made, .ok ())) ∧
        IsMuted (writtenLine (shown cwd p)) fault) := by
  constructor
  · intro h
    cases h with
    | unwritten h => exact .inl ⟨_, h⟩
    | written hwritten h => exact .inr ⟨⟨_, hwritten⟩, h⟩
  · rintro (⟨made, h⟩ | ⟨⟨made, hwritten⟩, h⟩)
    · exact .unwritten h
    · exact .written hwritten h

/-- **How a run ends with the text of a schema.** -/
theorem deliver_ends (tree : FileTree) (cwd : Path) (events : List Event) (config : Config)
    (given : Option String) (isCheck : Bool) (text : String) :
    let o := deliver tree cwd (String.join (events.map consoleLine)) config given isCheck text
    (∀ fault, o.status = .error fault ↔
      (given = some "-" ∧ Host.print text = .error fault) ∨
        (given ≠ some "-" ∧ TripsOver tree cwd (outputPath config given) text isCheck fault)) ∧
    ((∃ fault, o.status = .error fault) ∨ o.Ends cwd events) := by
  dsimp only
  rw [deliver]
  split
  · next hdash =>
    simpa only [hdash, ne_eq, not_true_eq_false, false_and, or_false, true_and] using
      finish_ends tree cwd events text
  · next hdash =>
    simp only [hdash, ne_eq, not_false_eq_true, true_and, false_and, false_or]
    cases isCheck with
    | true =>
      rw [if_pos rfl]
      simp only [tripsOver_true_iff]
      split
      · next f heq =>
        obtain ⟨fault', rfl, -⟩ := isCurrent_eq_error_iff.mp heq
        refine ⟨fun fault ↦ ?_, .inl ⟨fault', rfl⟩⟩
        simp only [heq, status_fail_eq_error_iff, Except.error.injEq, reduceCtorEq, false_and,
          or_false]
      · next heq =>
        simpa only [heq, reduceCtorEq, Except.ok.injEq, Bool.true_eq_false, true_and, false_and,
          or_false, false_or] using tell_finish_ends tree cwd (outputPath config given) events
            currentLine
      · next heq =>
        simp only [heq, reduceCtorEq, Except.ok.injEq, Bool.false_eq_true, true_and, false_and,
          false_or]
        rw [tell]
        cases Host.directory with
        | error f =>
          exact ⟨fun fault ↦ ⟨fun h ↦ congrArg _ (Except.error.inj h),
            fun h ↦ congrArg _ (Except.error.inj h)⟩, .inl ⟨f, rfl⟩⟩
        | ok _ =>
          exact ⟨fun fault ↦ ⟨fun h ↦ (by cases h), fun h ↦ (by cases h)⟩,
            .inr (Outcome.ends_of_diagnostic rfl rfl (.outOfDate (outputPath config given)))⟩
    | false =>
      rw [if_neg Bool.false_ne_true]
      simp only [tripsOver_false_iff]
      split
      · next made fault' heq =>
        refine ⟨fun fault ↦ ?_, .inl ⟨fault', rfl⟩⟩
        rw [stop]
        simp [heq]
      · next made heq =>
        simpa [heq] using tell_finish_ends made cwd (outputPath config given) events writtenLine

end Host

end Run

/-! ## Runs -/

namespace Command

variable [Host] [Yaml.DocumentReader] {c : Command} {stamp : String} {log : Option Path}
  {opened : FileTree} {path : Path} {config : Config}

theorem Begins.unique {log' : Option Path} {opened' : FileTree} {path' : Path} {config' : Config}
    (h : c.Begins tree cwd log opened path config)
    (h' : c.Begins tree cwd log' opened' path' config') :
    log = log' ∧ opened = opened' ∧ path = path' ∧ config = config' := by
  cases h.opens.symm.trans h'.opens
  cases h.leads.symm.trans h'.leads
  cases h.finds.symm.trans h'.finds
  exact ⟨rfl, rfl, rfl, rfl⟩

/-- A command that finds the crate trips over what its action trips over. -/
theorem Begins.not_crate (hbegins : c.Begins tree cwd log opened path config) {log' : Option Path}
    {opened' : FileTree} {path' : Path} (hopened : c.openLog tree cwd = .ok (log', opened'))
    (hpath : c.cratePath cwd = .ok path') : ¬ Config.TripsOver opened' path'.normal fault := by
  intro h
  cases hbegins.opens.symm.trans hopened
  cases hbegins.leads.symm.trans hpath
  cases hbegins.finds.symm.trans (Extraction.ofPath_eq_unreported_iff.mpr h)

variable [Rust.FileParser] [Toml.DocumentReader]

/-- What stops a run, at its turn: the log cannot be written; the path of the crate cannot be told;
the crate or its configuration cannot be had; the text of the spellings cannot be had, or their list
cannot be printed; the extraction trips over something else; the schema cannot be printed; or the
output cannot be compared or written, or not be told of. -/
inductive TripsOver (c : Command) (tree : FileTree) (cwd : Path) (stamp : String) : Fault → Prop
  | log {fault : Fault} (h : c.openLog tree cwd = .error fault) : TripsOver c tree cwd stamp fault
  | path {log : Option Path} {opened : FileTree} {fault : Fault}
      (hopened : c.openLog tree cwd = .ok (log, opened)) (h : c.cratePath cwd = .error fault) :
      TripsOver c tree cwd stamp fault
  | crate {log : Option Path} {opened : FileTree} {path : Path} {fault : Fault}
      (hopened : c.openLog tree cwd = .ok (log, opened)) (hpath : c.cratePath cwd = .ok path)
      (h : Config.TripsOver opened path.normal fault) : TripsOver c tree cwd stamp fault
  | tokens {log : Option Path} {opened : FileTree} {path : Path} {config : Config} {fault : Fault}
      (hbegins : c.Begins tree cwd log opened path config) (haction : c.action = .tokens)
      (h : opened.Withholds config.tokenFilePath fault) (hread : ∀ f, fault ≠ .file f) :
      TripsOver c tree cwd stamp fault
  | listing {log : Option Path} {opened : FileTree} {path : Path} {config : Config}
      {table : Table String} {fault : Fault} (hbegins : c.Begins tree cwd log opened path config)
      (haction : c.action = .tokens)
      (htable : (Extraction.spellings ⟨opened, config⟩).result = .ok table)
      (h : Host.print (Run.listing table) = .error fault) : TripsOver c tree cwd stamp fault
  | extract {log : Option Path} {opened : FileTree} {path : Path} {config : Config}
      {given : Option String} {isCheck : Bool} {fault : Fault}
      (hbegins : c.Begins tree cwd log opened path config)
      (haction : c.action = .extract given isCheck)
      (h : Extraction.TripsOver ⟨opened, config⟩ fault) : TripsOver c tree cwd stamp fault
  | printed {log : Option Path} {opened : FileTree} {path : Path} {config : Config}
      {isCheck : Bool} {text : String} {fault : Fault}
      (hbegins : c.Begins tree cwd log opened path config)
      (haction : c.action = .extract (some "-") isCheck)
      (htext : (Extraction.text ⟨opened, config⟩).result = .ok text)
      (h : Host.print text = .error fault) : TripsOver c tree cwd stamp fault
  | output {log : Option Path} {opened logged : FileTree} {path : Path} {config : Config}
      {given : Option String} {isCheck : Bool} {text : String} {fault : Fault}
      (hbegins : c.Begins tree cwd log opened path config)
      (haction : c.action = .extract given isCheck)
      (htext : (Extraction.text ⟨opened, config⟩).result = .ok text)
      (hlogged : appendLog opened log (c.logText ⟨opened, config⟩ stamp) = .ok logged)
      (hgiven : given ≠ some "-")
      (h : Run.TripsOver logged cwd (outputPath config given) text isCheck fault) :
      TripsOver c tree cwd stamp fault

/-! ### One way to trip at a time -/

theorem tripsOver_iff_of_log {fault' : Fault} (hopened : c.openLog tree cwd = .error fault') :
    c.TripsOver tree cwd stamp fault ↔ fault' = fault := by
  constructor
  · intro h
    cases h with
    | log h => exact Except.error.inj (hopened.symm.trans h)
    | path h _ | crate h _ _ => cases hopened.symm.trans h
    | tokens h _ _ _ | listing h _ _ _ | extract h _ _ | printed h _ _ _ | output h _ _ _ _ _ =>
      cases hopened.symm.trans h.opens
  · rintro rfl
    exact .log hopened

theorem tripsOver_iff_of_path (hopened : c.openLog tree cwd = .ok (log, opened)) {fault' : Fault}
    (hpath : c.cratePath cwd = .error fault') :
    c.TripsOver tree cwd stamp fault ↔ fault' = fault := by
  constructor
  · intro h
    cases h with
    | log h => cases hopened.symm.trans h
    | path _ h => exact Except.error.inj (hpath.symm.trans h)
    | crate _ h _ => cases hpath.symm.trans h
    | tokens h _ _ _ | listing h _ _ _ | extract h _ _ | printed h _ _ _ | output h _ _ _ _ _ =>
      cases hpath.symm.trans h.leads
  · rintro rfl
    exact .path hopened hpath

theorem tripsOver_iff_of_crate (hopened : c.openLog tree cwd = .ok (log, opened))
    (hpath : c.cratePath cwd = .ok path) {f : Failure}
    (hx : Extraction.ofPath opened path = .error f) :
    c.TripsOver tree cwd stamp fault ↔ f = .unreported fault := by
  constructor
  · intro h
    cases h with
    | log h => cases hopened.symm.trans h
    | path _ h => cases hpath.symm.trans h
    | crate hopened' hpath' h =>
      cases hopened.symm.trans hopened'
      cases hpath.symm.trans hpath'
      exact Except.error.inj (hx.symm.trans (Extraction.ofPath_eq_unreported_iff.mpr h))
    | tokens h _ _ _ | listing h _ _ _ | extract h _ _ | printed h _ _ _ | output h _ _ _ _ _ =>
      cases hopened.symm.trans h.opens
      cases hpath.symm.trans h.leads
      cases hx.symm.trans h.finds
  · rintro rfl
    exact .crate hopened hpath (Extraction.ofPath_eq_unreported_iff.mp hx)

theorem tripsOver_iff_of_tokens (hbegins : c.Begins tree cwd log opened path config)
    (haction : c.action = .tokens) :
    c.TripsOver tree cwd stamp fault ↔
      (Extraction.spellings ⟨opened, config⟩).result = .error (.unreported fault) ∨
      ∃ table, (Extraction.spellings ⟨opened, config⟩).result = .ok table ∧
        Host.print (Run.listing table) = .error fault := by
  rw [Extraction.spellings_eq_unreported_iff]
  constructor
  · intro h
    cases h with
    | log h => cases hbegins.opens.symm.trans h
    | path _ h => cases hbegins.leads.symm.trans h
    | crate hopened hpath h => exact absurd h (hbegins.not_crate hopened hpath)
    | tokens hbegins' _ h hread =>
      obtain ⟨rfl, rfl, rfl, rfl⟩ := hbegins.unique hbegins'
      exact .inl ⟨h, hread⟩
    | listing hbegins' _ htable h =>
      obtain ⟨rfl, rfl, rfl, rfl⟩ := hbegins.unique hbegins'
      exact .inr ⟨_, htable, h⟩
    | extract _ haction' _ | printed _ haction' _ _ | output _ haction' _ _ _ _ =>
      cases haction.symm.trans haction'
  · rintro (⟨h, hread⟩ | ⟨table, htable, h⟩)
    · exact .tokens hbegins haction h hread
    · exact .listing hbegins haction htable h

theorem tripsOver_iff_of_extract (hbegins : c.Begins tree cwd log opened path config)
    {given : Option String} {isCheck : Bool} (haction : c.action = .extract given isCheck)
    {logged : FileTree}
    (hlogged : appendLog opened log (c.logText ⟨opened, config⟩ stamp) = .ok logged) :
    c.TripsOver tree cwd stamp fault ↔
      (Extraction.text ⟨opened, config⟩).result = .error (.unreported fault) ∨
      ∃ text, (Extraction.text ⟨opened, config⟩).result = .ok text ∧
        ((given = some "-" ∧ Host.print text = .error fault) ∨
          (given ≠ some "-" ∧
            Run.TripsOver logged cwd (outputPath config given) text isCheck fault)) := by
  constructor
  · intro h
    cases h with
    | log h => cases hbegins.opens.symm.trans h
    | path _ h => cases hbegins.leads.symm.trans h
    | crate hopened hpath h => exact absurd h (hbegins.not_crate hopened hpath)
    | tokens _ haction' _ _ | listing _ haction' _ _ => cases haction.symm.trans haction'
    | extract hbegins' _ h =>
      obtain ⟨rfl, rfl, rfl, rfl⟩ := hbegins.unique hbegins'
      exact .inl (Extraction.text_eq_unreported_iff.mpr h)
    | printed hbegins' haction' htext h =>
      obtain ⟨rfl, rfl, rfl, rfl⟩ := hbegins.unique hbegins'
      cases haction.symm.trans haction'
      exact .inr ⟨_, htext, .inl ⟨rfl, h⟩⟩
    | output hbegins' haction' htext hlogged' hgiven h =>
      obtain ⟨rfl, rfl, rfl, rfl⟩ := hbegins.unique hbegins'
      cases haction.symm.trans haction'
      cases hlogged.symm.trans hlogged'
      exact .inr ⟨_, htext, .inr ⟨hgiven, h⟩⟩
  · rintro (h | ⟨text, htext, ⟨rfl, h⟩ | ⟨hgiven, h⟩⟩)
    · exact .extract hbegins haction (Extraction.text_eq_unreported_iff.mp h)
    · exact .printed hbegins haction htext h
    · exact .output hbegins haction htext hlogged hgiven h

/-! ### The run -/

end Command

namespace Command

/-! ### Spellings that are no text -/

/-- A crate whose spellings are one byte that no text begins with. -/
def undecodableCrate : FileTree := emptyCrate.put ["src", "token.rs"] [0xFF]

end Command
end NodeSchema
