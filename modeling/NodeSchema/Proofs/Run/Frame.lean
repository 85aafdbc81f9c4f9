import NodeSchema.Proofs.Extraction
import NodeSchema.Run

/-!
# What a run changes

A run changes the file of its log, and an extraction that succeeds writes the schema; no run changes
another file (`Outcome.files_of_ofArguments`).

* The log is the only file that is touched before everything is computed
  (`Command.sameBut_of_appendLog`), so the text of the schema is known when it is written
  (`Command.run_cases`).
* The text is that of the extraction of the tree before the run, if the log is none of the files
  that the extraction looks at: the tree that is extracted differs from it in the log alone.
* That the schema is written is told at the end, and this may fail (`Run.IsMuted`); the schema is
  there nevertheless.

Writing may make directories, which stay when the schema cannot be written in the end.
-/

set_option autoImplicit false

namespace NodeSchema

section Host

variable [Host]

/-- The log of the command lies in a place. -/
def Command.LogsTo (c : Command) (tree : FileTree) (cwd : Path) (place : List String) : Prop :=
  ∃ p, c.logPath cwd = .ok (some p) ∧ tree.place p = .ok place

/-- The command line names the log of a place. -/
def IsLog (arguments : List String) (tree : FileTree) (cwd : Path) (place : List String) : Prop :=
  ∃ c, Command.ofArguments arguments = .ok c ∧ c.LogsTo tree cwd place

/-- Why a run ends with a fault though its work is done: the current directory cannot be told, or
the last line cannot be printed. -/
inductive Run.IsMuted (line : String) : Fault → Prop
  | directory {fault : Fault} (h : Host.directory = .error fault) : IsMuted line fault
  | print {fault : Fault} (hdirectory : Host.directory = .ok ())
      (h : Host.print line = .error fault) : IsMuted line fault

end Host

/-- The command writes the schema to a file, the given one or the configured one. -/
structure Command.Writes (c : Command) (given : Option String) : Prop where
  action : c.action = .extract given false
  isFile : given ≠ some "-"

namespace Run

/-! ## The log -/

variable {tree tree' : FileTree} {p : Path} {changed : List String → Prop}

theorem exists_write_of_append {text : String} (h : append tree p text = .ok tree') :
    ∃ bytes, tree.write p bytes = .ok tree' := by
  rw [append] at h
  dsimp only at h
  split at h
  · cases hread : tree.read p
    all_goals
      rw [hread] at h
      split at h
      · next hwrite =>
        cases h
        exact ⟨_, hwrite⟩
      · cases h
  · cases h

/-- Adding to the log changes no other file. -/
theorem sameBut_of_appendLog {log : Option Path} {text : String}
    (h : appendLog tree log text = .ok tree')
    (hlog : ∀ p ∈ log, ∀ place, tree.place p = .ok place → changed place) :
    tree.SameBut changed tree' := by
  cases log with
  | none =>
    cases h
    exact .refl changed tree
  | some p =>
    obtain ⟨bytes, hwrite⟩ := exists_write_of_append h
    exact FileTree.sameBut_of_write hwrite (hlog p rfl)

theorem length_le_of_appendLog {log : Option Path} {text : String}
    (h : appendLog tree log text = .ok tree') : tree.files.length ≤ tree'.files.length := by
  cases log with
  | none =>
    cases h
    exact Nat.le_refl _
  | some p =>
    obtain ⟨bytes, hwrite⟩ := exists_write_of_append h
    exact FileTree.length_le_of_write hwrite

/-! ## The schema -/

/-- What writing a text does: no file changes if it fails, and otherwise the file holds the text and
no other changes. -/
theorem writeText_cases (tree : FileTree) (p : Path) (text : String) :
    (∃ t fault, writeText tree p text = (t, .error fault) ∧
      ∀ place, t.file? place = tree.file? place) ∨
    ∃ t, writeText tree p text = (t, .ok ()) ∧ t.read p = .ok (bytesOf text) ∧
      ∀ place, t.place p ≠ .ok place → t.file? place = tree.file? place := by
  rw [writeText]
  split
  · have hmade := tree.file?_makeAllDirectories p.parent
    split
    · next t fault heq =>
      rw [heq] at hmade
      exact .inl ⟨t, _, rfl, hmade⟩
    · next t heq =>
      rw [heq] at hmade
      split
      · split
        · next t' hwrite =>
          have hsame : t.SameBut (fun place ↦ t.place p = .ok place) t' :=
            FileTree.sameBut_of_write hwrite fun _ hplace ↦ hplace
          refine .inr ⟨t', rfl, FileTree.read_of_write hwrite, fun place hplace ↦ ?_⟩
          rw [← hsame.files place fun h ↦ hplace (hsame.place_eq_ok_iff.mp h)]
          exact hmade place
        · exact .inl ⟨t, _, rfl, hmade⟩
      · exact .inl ⟨t, _, rfl, hmade⟩
  · exact .inl ⟨tree, _, rfl, fun _ ↦ rfl⟩

theorem tree_fail (tree : FileTree) (log : String) (f : Failure) :
    (fail tree log f).tree = tree := by
  cases f <;> rfl

theorem status_fail_ne (tree : FileTree) (log : String) (f : Failure) :
    (fail tree log f).status ≠ .ok 0 := by
  cases f <;> nofun

section Host

variable [Host]

theorem tree_finish (tree : FileTree) (log output : String) :
    (finish tree log output).tree = tree := by
  rw [finish]
  split <;> rfl

/-- A run that tells of its output ends well, or with the fault that mutes it. -/
theorem tell_finish_cases (tree : FileTree) (cwd p : Path) (log : String) (line : String → String) :
    let o := tell tree cwd p log fun name ↦ finish tree log (line name)
    o.tree = tree ∧ (o.status = .ok 0 ∧ Host.directory = .ok () ∧
        Host.print (line (shown cwd p)) = .ok () ∨
      ∃ fault, o.status = .error fault ∧ IsMuted (line (shown cwd p)) fault) := by
  dsimp only
  rw [tell]
  cases hdirectory : Host.directory with
  | error fault => exact ⟨rfl, .inr ⟨fault, rfl, .directory hdirectory⟩⟩
  | ok _ =>
    dsimp only
    rw [finish]
    cases hprint : Host.print (line (shown cwd p)) with
    | error fault => exact ⟨rfl, .inr ⟨fault, rfl, .print hdirectory hprint⟩⟩
    | ok _ => exact ⟨rfl, .inl ⟨rfl, rfl, rfl⟩⟩

/-- **How a schema is dealt with**: it is written to a file, or no file changes. -/
theorem deliver_cases (tree : FileTree) (cwd : Path) (log : String) (c : Config)
    (given : Option String) (isCheck : Bool) (text : String) :
    let o := deliver tree cwd log c given isCheck text
    let p := outputPath c given
    ((∀ place, o.tree.file? place = tree.file? place) ∧
      (o.status = .ok 0 → given = some "-" ∨ isCheck = true)) ∨
    (given ≠ some "-" ∧ isCheck = false ∧ writeText tree p text = (o.tree, .ok ()) ∧
      (o.status = .ok 0 ∧ Host.directory = .ok () ∧
          Host.print (writtenLine (shown cwd p)) = .ok () ∨
        ∃ fault, o.status = .error fault ∧ IsMuted (writtenLine (shown cwd p)) fault)) := by
  dsimp only
  rw [deliver]
  split
  · next hgiven =>
    refine .inl ⟨fun place ↦ ?_, fun _ ↦ .inl hgiven⟩
    rw [tree_finish]
  · next hgiven =>
    split
    · next hcheck =>
      refine .inl ⟨fun place ↦ ?_, fun _ ↦ .inr hcheck⟩
      split
      · rw [tree_fail]
      · rw [(tell_finish_cases tree cwd _ log currentLine).1]
      · rw [tell]
        split <;> rfl
    · next hcheck =>
      rw [Bool.not_eq_true] at hcheck
      rcases writeText_cases tree (outputPath c given) text with
        ⟨t, fault, hwrite, hfiles⟩ | ⟨t, hwrite, -, -⟩
      · rw [hwrite]
        exact .inl ⟨hfiles, nofun⟩
      · rw [hwrite]
        obtain ⟨htree, hstatus⟩ := tell_finish_cases t cwd (outputPath c given) log writtenLine
        exact .inr ⟨hgiven, hcheck, by rw [htree], hstatus⟩

end Host

end Run

open Run

/-! ## The run -/

section Host

variable [Host] {c : Command} {tree : FileTree} {cwd : Path} {stamp : String}

theorem Command.openLog_eq_ok_iff {log : Option Path} {opened : FileTree} :
    c.openLog tree cwd = .ok (log, opened) ↔
      c.logPath cwd = .ok log ∧ appendLog tree log "" = .ok opened := by
  rw [openLog, bind_eq_ok]
  constructor
  · rintro ⟨log', hlog, h⟩
    obtain ⟨opened', hopened, h⟩ := bind_eq_ok.mp h
    cases h
    exact ⟨hlog, hopened⟩
  · rintro ⟨hlog, hopened⟩
    exact ⟨log, hlog, bind_eq_ok.mpr ⟨opened, hopened, rfl⟩⟩

/-- Adding to the log changes no other file. -/
theorem Command.sameBut_of_appendLog {log : Option Path} {logged tree' : FileTree} {text : String}
    (hlog : c.logPath cwd = .ok log) (hlogged : tree.SameBut (c.LogsTo tree cwd) logged)
    (h : appendLog logged log text = .ok tree') : tree.SameBut (c.LogsTo tree cwd) tree' := by
  refine hlogged.trans (Run.sameBut_of_appendLog h ?_)
  rintro p ⟨⟩ place hplace
  exact ⟨p, hlog, hlogged.place_eq_ok_iff.mpr hplace⟩

end Host

section Run

variable [Host] [Rust.FileParser] [Yaml.DocumentReader] [Toml.DocumentReader]

/-- **What a run does**: apart from its log, it changes no file, or it writes the text of an
extraction that succeeded. -/
theorem Command.run_cases (c : Command) (tree : FileTree) (cwd : Path) (stamp : String) :
    let o := c.run tree cwd stamp
    ∃ opened logged, tree.SameBut (c.LogsTo tree cwd) opened ∧
      tree.files.length ≤ opened.files.length ∧ tree.SameBut (c.LogsTo tree cwd) logged ∧
      (((∀ place, o.tree.file? place = logged.file? place) ∧
          (o.status = .ok 0 → ∀ given, ¬ c.Writes given)) ∨
        ∃ path x text given, c.Writes given ∧ c.cratePath cwd = .ok path ∧
          Extraction.ofPath opened path = .ok x ∧ x.text.result = .ok text ∧
          writeText logged (outputPath x.config given) text = (o.tree, .ok ()) ∧
          (o.status = .ok 0 ∨ ∃ fault, o.status = .error fault ∧
            IsMuted (writtenLine (shown cwd (outputPath x.config given))) fault)) := by
  have hrefl := FileTree.SameBut.refl (c.LogsTo tree cwd) tree
  dsimp only
  rw [Command.run]
  split
  · exact ⟨tree, tree, hrefl, Nat.le_refl _, hrefl, .inl ⟨fun _ ↦ rfl, nofun⟩⟩
  · next log opened hopen =>
    obtain ⟨hlogPath, hopen⟩ := Command.openLog_eq_ok_iff.mp hopen
    have hopened := Command.sameBut_of_appendLog hlogPath hrefl hopen
    have hlength := length_le_of_appendLog hopen
    split
    · exact ⟨opened, opened, hopened, hlength, hopened, .inl ⟨fun _ ↦ rfl, nofun⟩⟩
    · next path hpath =>
      split
      · next f _ =>
        refine ⟨opened, opened, hopened, hlength, hopened, .inl ⟨fun _ ↦ ?_, fun h ↦ ?_⟩⟩
        · rw [tree_fail]
        · exact absurd h (status_fail_ne _ _ _)
      · next x hx =>
        dsimp only
        split
        · exact ⟨opened, opened, hopened, hlength, hopened, .inl ⟨fun _ ↦ rfl, nofun⟩⟩
        · next logged hlog =>
          refine ⟨opened, logged, hopened, hlength,
            Command.sameBut_of_appendLog hlogPath hopened hlog, ?_⟩
          split
          · refine .inl ⟨fun _ ↦ ?_, fun h ↦ ?_⟩
            · rw [tree_fail]
            · exact absurd h (status_fail_ne _ _ _)
          · next haction =>
            refine .inl ⟨fun _ ↦ by rw [tree_finish], fun _ given hwrites ↦ ?_⟩
            cases hwrites.action.symm.trans haction
          · next text given isCheck htext haction =>
            rcases deliver_cases logged cwd (String.join ((told c.isVerbose
                (compute x c.action).events).map consoleLine)) x.config given isCheck text with
              ⟨hfiles, hstatus⟩ | ⟨hgiven, rfl, hwrite, hstatus⟩
            · refine .inl ⟨hfiles, fun h given' hwrites ↦ ?_⟩
              cases hwrites.action.symm.trans haction
              rcases hstatus h with hgiven | hcheck
              · exact hwrites.isFile hgiven
              · cases hcheck
            · rw [haction] at htext
              exact .inr ⟨path, x, text, given, ⟨haction, hgiven⟩, hpath, hx, htext, hwrite,
                hstatus.imp_left And.left⟩

/-! ## The program -/

/-- The outcome leaves every file as it was, the log apart. -/
def Outcome.Keeps (o : Outcome) (arguments : List String) (tree : FileTree) (cwd : Path) : Prop :=
  ∀ place, ¬ IsLog arguments tree cwd place → o.tree.file? place = tree.file? place

/-- The outcome holds the schema: the output has its text and no other file has changed, the log
apart; and the text is the one that the extraction of the tree before the run gives, if the log is
none of the files that the extraction looks at. -/
def Outcome.Holds (o : Outcome) (arguments : List String) (tree : FileTree) (cwd : Path)
    (c : Command) (given : Option String) (p : Path) : Prop :=
  ∃ path text, c.cratePath cwd = .ok path ∧ o.tree.read p = .ok (bytesOf text) ∧
    (∀ place, ¬ IsLog arguments tree cwd place → o.tree.place p ≠ .ok place →
      o.tree.file? place = tree.file? place) ∧
    ((∀ q, Extraction.LooksAt tree path q → tree.Misses (IsLog arguments tree cwd) q) →
      ∃ x, Extraction.ofPath tree path = .ok x ∧ x.text.result = .ok text ∧
        p = outputPath x.config given)

end Run

/-! ### A crate without nodes -/

/-- A crate that holds nothing but what every crate has to. -/
def Run.emptyCrate : FileTree where
  files := [
    (["src", "lib.rs"], []),
    (["src", "token.rs"], Text.bytesOf "macro_rules! Token \x7b \x7d"),
    (["Cargo.toml"], Text.bytesOf "[package]\nversion = \"1.0.0\"\n")]
  directories := [["src"]]

/-- A command line that writes a schema and a log. -/
def Run.writingArguments : List String := ["--log-file", "run.log", "extract", "-o", "out.json"]

theorem ofArguments_writingArguments : Command.ofArguments writingArguments =
    .ok ⟨false, some "run.log", ".", .extract (some "out.json") false⟩ := by decide

theorem ofPath_emptyCrate :
    Extraction.ofPath emptyCrate ⟨true, []⟩ = .ok ⟨emptyCrate, .default ⟨true, []⟩⟩ := by rfl

theorem source_emptyCrate :
    Crate.source ⟨emptyCrate, ⟨true, []⟩, .default⟩ (.ofString "src/lib.rs") =
      .ok ⟨"src/lib.rs", []⟩ := by decide

theorem items_emptyCrate : Rust.Source.items ⟨"src/lib.rs", []⟩ = .ok [] := by decide

theorem place_of_isLog_writingArguments {place : List String}
    (h : IsLog writingArguments emptyCrate ⟨true, []⟩ place) : place = ["run.log"] := by
  obtain ⟨c, hc, p, hp, hplace⟩ := h
  cases ofArguments_writingArguments.symm.trans hc
  cases hp
  exact (Except.ok.inj hplace).symm

/-- The extraction of the crate does not look at the log. -/
theorem misses_emptyCrate {path : Path}
    (h : Extraction.LooksAt emptyCrate ⟨true, []⟩ path) :
    emptyCrate.Misses (IsLog writingArguments emptyCrate ⟨true, []⟩) path := by
  rintro place hplace hlog
  obtain rfl := place_of_isLog_writingArguments hlog
  revert hplace
  cases h with
  | crate => decide
  | configuration => decide
  | spellings hx =>
    cases ofPath_emptyCrate.symm.trans hx
    decide
  | module hx hreachable =>
    cases ofPath_emptyCrate.symm.trans hx
    cases hreachable using Relation.ReflTransGen.head_induction_on with
    | refl => decide
    | head himports =>
      -- The root file is empty, so it names no file.
      obtain ⟨source, items, i, ⟨hsource, hitems⟩, hi, -⟩ := himports
      cases source_emptyCrate.symm.trans hsource
      cases items_emptyCrate.symm.trans hitems
      cases hi
  | manifest hx =>
    cases ofPath_emptyCrate.symm.trans hx
    decide

/-- A system that prints nothing. -/
@[reducible]
def Run.mutedHost : Host := ⟨fun _ ↦ .error .badValue, .ok (), fun _ ↦ .error .badValue⟩

/-- A run whose log is at the path of the crate. -/
def Run.loggedCrate : Outcome :=
  Outcome.ofArguments ["--log-file", "nope", "extract", "nope"] emptyCrate ⟨true, []⟩ ""

/-- A run that writes the schema and cannot print that it did. -/
def Run.mutedRun : Outcome :=
  @Outcome.ofArguments mutedHost Rust.Grammar.fileParser Yaml.documentReader Toml.documentReader
    ["extract", "-o", "out.json"] emptyCrate ⟨true, []⟩ ""

end NodeSchema
