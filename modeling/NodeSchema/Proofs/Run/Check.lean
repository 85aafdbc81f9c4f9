import NodeSchema.Proofs.Extraction.Growth
import NodeSchema.Proofs.Run.Frame
import NodeSchema.Proofs.Schema.Proper
import NodeSchema.Proofs.Text.Newlines

/-!
# What was written is up to date

A run that writes the schema leaves a tree in which the schema is up to date, however many runs
follow: each of them extracts the same text again and finds it in its place (`Settled`,
`Command.settled_run`).  For this the files of the extraction have to lie apart from everything that
the runs touch, which is the log, the output and the directories on the way to it.  What is apart
from them is read again from the tree that has grown.

What a run compares is the text of the output alone, whatever has happened to the files before; and
the text of a proper schema is told by the schema that is read from it (`Definitions.text_eq_iff`).
-/

set_option autoImplicit false

namespace NodeSchema

open Run

/-! ## Commands that extract -/

namespace Command

/-- The command with an extraction as its action: the schema is written, or compared. -/
def extracting (c : Command) (given : Option String) (isCheck : Bool) : Command :=
  { c with action := .extract given isCheck }

section Run

variable [Host] [Rust.FileParser] [Yaml.DocumentReader] [Toml.DocumentReader]

/-- The tree after runs that extract, each with the stamp of its log. -/
def treeAfter (c : Command) (given : Option String) (cwd : Path) :
    List (Bool × String) → FileTree → FileTree
  | [], tree => tree
  | (isCheck, stamp) :: later, tree =>
    treeAfter c given cwd later ((c.extracting given isCheck).run tree cwd stamp).tree

end Run

end Command

namespace Run

variable {tree tree' : FileTree} {p : Path} {text : String} {changed : List String → Prop}

/-! ## The log -/

theorem exists_admits_of_append (h : append tree p text = .ok tree') :
    FileTree.isAskable p = true ∧ ∃ place, tree.place p = .ok place ∧ tree'.Admits p place ∧
      (tree'.file? place).isSome = true := by
  have haskable : FileTree.isAskable p = true := by
    rw [append] at h
    split at h
    · assumption
    · cases h
  obtain ⟨bytes, hwrite⟩ := exists_write_of_append h
  obtain ⟨place, hplace, hadmits, hfile⟩ := FileTree.exists_admits_of_write hwrite
  exact ⟨haskable, place, hplace, hadmits, Option.isSome_of_eq_some hfile⟩

theorem exists_append {place : List String} (haskable : FileTree.isAskable p = true)
    (h : tree.Admits p place) (text : String) : ∃ tree', append tree p text = .ok tree' := by
  rw [append, if_pos haskable]
  dsimp only
  cases tree.read p
  all_goals
    rw [FileTree.write_eq_ok_iff.mpr ⟨place, h, rfl⟩]
    exact ⟨_, rfl⟩

/-- A tree grows in the place of its log. -/
theorem growsTo_of_appendLog {log : Option Path} (h : appendLog tree log text = .ok tree')
    (hlog : ∀ p ∈ log, ∀ place, tree.place p = .ok place → changed place) :
    tree.GrowsTo changed tree' := by
  cases log with
  | none =>
    cases h
    exact .refl changed tree
  | some p =>
    obtain ⟨bytes, hwrite⟩ := exists_write_of_append h
    exact FileTree.growsTo_of_write hwrite (hlog p rfl)

/-- **A log that is there can be added to**, however the tree has grown, and is where it was. -/
theorem exists_appendLog {log : Option Path} {grown : FileTree} {isLog : List String → Prop}
    (h : appendLog tree log "" = .ok tree') (hgrown : tree'.GrowsTo changed grown)
    (hlog : ∀ p ∈ log, ∀ place, tree.place p = .ok place → isLog place) (text : String) :
    ∃ logged, appendLog grown log text = .ok logged ∧ grown.GrowsTo isLog logged := by
  cases log with
  | none => exact ⟨grown, rfl, .refl isLog grown⟩
  | some p =>
    obtain ⟨haskable, place, hplace, hadmits, hfile⟩ := exists_admits_of_append h
    have hadmits' := hgrown.admits hadmits hfile
    obtain ⟨logged, hlogged⟩ := exists_append haskable hadmits' text
    have hlogged' : appendLog grown (some p) text = .ok logged := hlogged
    refine ⟨logged, hlogged, growsTo_of_appendLog hlogged' ?_⟩
    rintro _ ⟨⟩ other hother
    obtain rfl : place = other := Except.ok.inj (hadmits'.leads.symm.trans hother)
    exact hlog p rfl place hplace

/-! ## The schema -/

/-- A file whose text can be read is there. -/
theorem exists_place_of_readText {cs : List Char} (h : tree.readText p = .ok cs) :
    ∃ place, tree.place p = .ok place ∧ tree.has p = true := by
  rw [FileTree.readText] at h
  split at h
  · cases hread : tree.read p with
    | error fault =>
      rw [hread] at h
      cases h
    | ok bytes =>
      obtain ⟨place, hplace, -, hfile⟩ := FileTree.exists_place_of_read hread
      refine ⟨place, hplace, ?_⟩
      rw [FileTree.has, hplace]
      dsimp only
      rw [hfile, Option.isSome_some, Bool.or_true]
  · cases h

/-- A file is up to date if its text is the one that it is compared with. -/
theorem isCurrent_eq_true_iff :
    isCurrent tree p text = .ok true ↔ tree.readText p = .ok text.toList := by
  rw [isCurrent]
  constructor
  · intro h
    split at h
    · cases h
    · split at h
      · obtain ⟨cs, hcs, heq⟩ := map_eq_ok.mp h
        rw [hcs, of_decide_eq_true heq]
      · cases h
  · intro h
    obtain ⟨place, hplace, hhas⟩ := exists_place_of_readText h
    split
    · next hlong =>
      rw [hplace] at hlong
      cases hlong
    · rw [if_pos hhas, h]
      exact congrArg Except.ok (decide_eq_true rfl)

theorem writeText_eq_ok_iff : writeText tree p text = (tree', .ok ()) ↔
    FileTree.isAskable p.parent = true ∧ FileTree.isAskable p = true ∧
      ∃ made, tree.makeAllDirectories p.parent = (made, .ok ()) ∧
        made.write p (bytesOf text) = .ok tree' := by
  rw [writeText]
  constructor
  · intro h
    split at h
    · next hparent =>
      split at h
      · cases h
      · next made hmade =>
        split at h
        · next haskable =>
          split at h
          · next hwrite =>
            cases h
            exact ⟨hparent, haskable, made, hmade, hwrite⟩
          · cases h
        · cases h
    · cases h
  · rintro ⟨hparent, haskable, made, hmade, hwrite⟩
    rw [if_pos hparent, hmade]
    dsimp only
    rw [if_pos haskable, hwrite]

/-- **Writing a text** grows the tree in places on the way of its path. -/
theorem growsTo_of_writeText (h : writeText tree p text = (tree', .ok ()))
    (hp : ∀ place, tree'.IsOn p place → changed place) : tree.GrowsTo changed tree' := by
  obtain ⟨-, -, made, hmade, hwrite⟩ := writeText_eq_ok_iff.mp h
  have hgrows : made.GrowsTo (fun _ ↦ True) tree' :=
    FileTree.growsTo_of_write hwrite fun _ _ ↦ trivial
  refine (FileTree.growsTo_of_makeAllDirectories hmade fun place hplace ↦
    hp place (hgrows.isOn hplace.of_parent)).trans ?_
  exact FileTree.growsTo_of_write hwrite fun place hplace ↦
    hp place (hgrows.isOn (FileTree.isOn_self hplace))

section Host

variable [Host]

theorem tree_deliver_check (tree : FileTree) (cwd : Path) (log : String) (config : Config)
    (given : Option String) (text : String) :
    (deliver tree cwd log config given true text).tree = tree := by
  rw [deliver]
  split
  · exact tree_finish tree log text
  · rw [if_pos rfl]
    split
    · exact tree_fail tree log _
    · exact (tell_finish_cases tree cwd _ log currentLine).1
    · rw [tell]
      split <;> rfl

/-- A run that finds its output up to date can tell so. -/
structure CanTell (cwd p : Path) : Prop where
  directory : Host.directory = .ok ()
  print : Host.print (currentLine (shown cwd p)) = .ok ()

theorem status_tell_currentLine {cwd p : Path} (h : CanTell cwd p) (tree : FileTree)
    (log : String) :
    (tell tree cwd p log fun name ↦ finish tree log (currentLine name)).status = .ok 0 := by
  rw [tell, h.directory]
  dsimp only
  rw [finish, h.print]

/-- How a comparison ends. -/
theorem status_deliver_check (tree : FileTree) {cwd : Path} (log : String) {config : Config}
    {given : Option String} (hgiven : given ≠ some "-")
    (htell : CanTell cwd (outputPath config given)) (text : String) :
    (deliver tree cwd log config given true text).status = .ok 0 ↔
      tree.readText (outputPath config given) = .ok text.toList := by
  rw [deliver, if_neg hgiven, if_pos rfl, ← isCurrent_eq_true_iff]
  split
  · next f heq =>
    rw [heq]
    exact ⟨fun h ↦ absurd h (status_fail_ne _ _ _), fun h ↦ by cases h⟩
  · next heq => exact ⟨fun _ ↦ heq, fun _ ↦ status_tell_currentLine htell tree log⟩
  · next heq =>
    rw [heq, tell, htell.directory]
    exact ⟨fun h ↦ (by cases h), fun h ↦ (by cases h)⟩

end Host

end Run

/-! ## The run -/

namespace Command

variable {c : Command} {given : Option String} {tree opened : FileTree} {cwd : Path}
  {changed : List String → Prop} {config : Config} {text : String}

section Host

variable [Host]

theorem logsTo_of_place {log : Option Path} (hlog : c.logPath cwd = .ok log) :
    ∀ p ∈ log, ∀ place, tree.place p = .ok place → c.LogsTo tree cwd place := by
  rintro p ⟨⟩ place hplace
  exact ⟨p, hlog, hplace⟩

/-- The log stays where it is when the tree grows. -/
theorem LogsTo.of_growsTo {grown : FileTree} {log : Option Path} {place : List String}
    (hopened : c.openLog tree cwd = .ok (log, opened)) (hgrown : opened.GrowsTo changed grown)
    (h : c.LogsTo grown cwd place) : c.LogsTo tree cwd place := by
  obtain ⟨p, hp, hplace⟩ := h
  obtain ⟨hlog, hopened⟩ := openLog_eq_ok_iff.mp hopened
  cases hlog.symm.trans hp
  obtain ⟨-, other, hother, hadmits, -⟩ := exists_admits_of_append hopened
  obtain rfl : other = place := Except.ok.inj ((hgrown.leads hadmits.leads).symm.trans hplace)
  exact ⟨p, hp, hother⟩

section Runs

variable [Rust.FileParser] [Yaml.DocumentReader] [Toml.DocumentReader]

/-- The command opens its log and finds the crate. -/
structure Begins (c : Command) (tree : FileTree) (cwd : Path) (log : Option Path)
    (opened : FileTree) (path : Path) (config : Config) : Prop where
  opens : c.openLog tree cwd = .ok (log, opened)
  leads : c.cratePath cwd = .ok path
  finds : Extraction.ofPath opened path = .ok ⟨opened, config⟩

/-- What a run tells in its log. -/
def logText (c : Command) (x : Extraction) (stamp : String) : String :=
  String.join ((told c.isVerbose (compute x c.action).events).map (fileLine stamp))

/-- A command that finds its crate ends as what it computes is dealt with. -/
theorem Begins.run_eq {log : Option Path} {path : Path} {logged : FileTree} {stamp : String}
    (h : c.Begins tree cwd log opened path config)
    (hlogged : appendLog opened log (c.logText ⟨opened, config⟩ stamp) = .ok logged) :
    c.run tree cwd stamp =
      let computed := compute ⟨opened, config⟩ c.action
      let lines := String.join ((told c.isVerbose computed.events).map consoleLine)
      match computed.result, c.action with
      | .error f, _ => fail logged lines f
      | .ok text, .tokens => finish logged lines text
      | .ok text, .extract given isCheck =>
        deliver logged cwd lines config given isCheck text := by
  rw [logText] at hlogged
  rw [run, h.opens]
  dsimp only
  rw [h.leads]
  dsimp only
  rw [h.finds]
  dsimp only
  generalize compute ⟨opened, config⟩ c.action = computed at hlogged ⊢
  obtain ⟨result, events⟩ := computed
  cases result with
  | error f => rw [hlogged]
  | ok text =>
    cases c.action with
    | tokens => rw [hlogged]
    | extract given isCheck => rw [hlogged]

/-- **How a command ends that extracts**: the text is dealt with in the tree whose log has grown,
or the failure of the extraction is told. -/
theorem exists_run {log : Option Path} {path : Path}
    (h : c.Begins tree cwd log opened path config) (given : Option String) (isCheck : Bool)
    (stamp : String) :
    ∃ logged lines, tree.SameBut (c.LogsTo tree cwd) logged ∧
      opened.GrowsTo (c.LogsTo tree cwd) logged ∧
      (∀ text, (Extraction.text ⟨opened, config⟩).result = .ok text →
        (c.extracting given isCheck).run tree cwd stamp =
          deliver logged cwd lines config given isCheck text) ∧
      ∀ f, (Extraction.text ⟨opened, config⟩).result = .error f →
        (c.extracting given isCheck).run tree cwd stamp = fail logged lines f := by
  obtain ⟨hlog, happend⟩ := openLog_eq_ok_iff.mp h.opens
  obtain ⟨logged, hlogged, hgrows⟩ := exists_appendLog happend (.refl (fun _ ↦ True) opened)
    (logsTo_of_place hlog) ((c.extracting given isCheck).logText ⟨opened, config⟩ stamp)
  have hsame := Command.sameBut_of_appendLog hlog
    (Command.sameBut_of_appendLog hlog (.refl (c.LogsTo tree cwd) tree) happend) hlogged
  have hbegins : (c.extracting given isCheck).Begins tree cwd log opened path config :=
    ⟨h.opens, h.leads, h.finds⟩
  have hrun := hbegins.run_eq hlogged
  dsimp only [compute, extracting] at hrun
  refine ⟨logged, String.join ((told c.isVerbose (Extraction.text ⟨opened, config⟩).events).map
    consoleLine), hsame, hgrows, fun text htext ↦ ?_, fun f hf ↦ ?_⟩
  · rw [extracting, hrun, htext]
  · rw [extracting, hrun, hf]

end Runs

end Host

/-- A tree has grown from the one of an extraction, and holds the text in the place of the
output. -/
structure Settled (changed : List String → Prop) (opened : FileTree) (p : Path)
    (place : List String) (text : String) (tree : FileTree) : Prop where
  grown : opened.GrowsTo changed tree
  admits : tree.Admits p place
  bytes : tree.file? place = some (bytesOf text)

namespace Settled

variable {p : Path} {place : List String} {isLog : List String → Prop}

/-- The text stays there when the tree grows in other places. -/
theorem of_growsTo {tree' : FileTree} (h : Settled changed opened p place text tree)
    (hgrows : tree.GrowsTo isLog tree') (hlog : ∀ place, isLog place → changed place)
    (hplace : ¬ isLog place) : Settled changed opened p place text tree' where
  grown := h.grown.trans (hgrows.mono hlog)
  admits := hgrows.admits h.admits (Option.isSome_of_eq_some h.bytes)
  bytes := (hgrows.others place hplace).1.trans h.bytes

theorem read (h : Settled changed opened p place text tree) :
    tree.read p = .ok (bytesOf text) := by
  rw [FileTree.read, h.admits.leads]
  dsimp only
  rw [h.admits.isFile, h.bytes]
  rfl

theorem readText (h : Settled changed opened p place text tree)
    (haskable : FileTree.isAskable p = true) (htext : '\r' ∉ text.toList) :
    tree.readText p = .ok text.toList := by
  rw [FileTree.readText, if_pos haskable, h.read, bytesOf, Text.toList_toUTF8]
  dsimp only
  rw [Text.readText?_bytesOf htext]

/-- The text can be written once more. -/
theorem writeText (h : Settled changed opened p place text tree)
    (haskable : FileTree.isAskable p = true) (hparent : FileTree.isAskable p.parent = true)
    (hplace : changed place) : ∃ tree', Run.writeText tree p text = (tree', .ok ()) ∧
      Settled changed opened p place text tree' := by
  have hmade := FileTree.makeAllDirectories_of_isDirectory h.admits.isDirectory_parent
  have hwrite : tree.write p (bytesOf text) = .ok (tree.put place (bytesOf text)) :=
    FileTree.write_eq_ok_iff.mpr ⟨place, h.admits, rfl⟩
  refine ⟨_, writeText_eq_ok_iff.mpr ⟨hparent, haskable, tree, hmade, hwrite⟩, ?_⟩
  obtain ⟨other, hother, hadmits, hbytes⟩ := FileTree.exists_admits_of_write hwrite
  obtain rfl : other = place := Except.ok.inj (hother.symm.trans h.admits.leads)
  refine ⟨h.grown.trans (FileTree.growsTo_of_write hwrite ?_), hadmits, hbytes⟩
  intro other' hother'
  obtain rfl : other = other' := Except.ok.inj (hother.symm.trans hother')
  exact hplace

end Settled

section Runs

variable [Host] [Rust.FileParser] [Yaml.DocumentReader] [Toml.DocumentReader]
  {log : Option Path} {path : Path}

/-- **One more run keeps a settled tree settled**, and ends well. -/
theorem settled_run (hbegins : c.Begins tree cwd log opened path config)
    (htext : (Extraction.text ⟨opened, config⟩).result = .ok text)
    (hreads : ∀ q, Extraction.Reads opened path q → opened.Misses changed q)
    (hlog : ∀ place, c.LogsTo tree cwd place → changed place) (hgiven : given ≠ some "-")
    (haskable : FileTree.isAskable (outputPath config given) = true)
    (hparent : FileTree.isAskable (outputPath config given).parent = true)
    (htell : CanTell cwd (outputPath config given))
    (hwritten : Host.print (writtenLine (shown cwd (outputPath config given))) = .ok ())
    {place : List String} (hplace : changed place) (hother : ¬ c.LogsTo tree cwd place)
    {t : FileTree} (h : Settled changed opened (outputPath config given) place text t)
    (isCheck : Bool) (stamp : String) :
    let o := (c.extracting given isCheck).run t cwd stamp
    o.status = .ok 0 ∧ Settled changed opened (outputPath config given) place text o.tree := by
  obtain ⟨hlogPath, happend⟩ := openLog_eq_ok_iff.mp hbegins.opens
  obtain ⟨reopened, hreopened, hgrows⟩ :=
    exists_appendLog happend h.grown (logsTo_of_place hlogPath) ""
  have hgrown : opened.GrowsTo changed reopened := h.grown.trans (hgrows.mono hlog)
  have hbegins' : c.Begins t cwd log reopened path config :=
    ⟨openLog_eq_ok_iff.mpr ⟨hlogPath, hreopened⟩, hbegins.leads,
      Extraction.ofPath_of_growsTo hgrown hreads hbegins.finds⟩
  have htext' := Extraction.result_text_of_growsTo hgrown hreads hbegins.finds htext
  obtain ⟨logged, lines, -, hlogged, hrun, -⟩ := exists_run hbegins' given isCheck stamp
  have hsettled : Settled changed opened (outputPath config given) place text logged := by
    refine (h.of_growsTo hgrows hlog hother).of_growsTo (hlogged.mono fun place hlogs ↦ ?_) hlog
      hother
    exact LogsTo.of_growsTo hbegins.opens h.grown hlogs
  dsimp only
  rw [hrun text htext']
  cases isCheck with
  | true =>
    have hprinted : '\r' ∉ text.toList := by
      obtain ⟨d, -, hprint⟩ := Logged.result_bind_eq_ok.mp htext
      exact Definitions.notMem_print hprint
    rw [tree_deliver_check]
    exact ⟨(status_deliver_check logged lines hgiven htell text).mpr
      (hsettled.readText haskable hprinted), hsettled⟩
  | false =>
    obtain ⟨written, hmade, hsettled'⟩ := hsettled.writeText haskable hparent hplace
    rw [deliver, if_neg hgiven, if_neg Bool.false_ne_true, hmade]
    dsimp only
    rw [Run.tell, htell.directory]
    dsimp only
    rw [finish, hwritten]
    exact ⟨rfl, hsettled'⟩

/-- **Runs keep a settled tree settled.** -/
theorem settled_treeAfter (hbegins : c.Begins tree cwd log opened path config)
    (htext : (Extraction.text ⟨opened, config⟩).result = .ok text)
    (hreads : ∀ q, Extraction.Reads opened path q → opened.Misses changed q)
    (hlog : ∀ place, c.LogsTo tree cwd place → changed place) (hgiven : given ≠ some "-")
    (haskable : FileTree.isAskable (outputPath config given) = true)
    (hparent : FileTree.isAskable (outputPath config given).parent = true)
    (htell : CanTell cwd (outputPath config given))
    (hwritten : Host.print (writtenLine (shown cwd (outputPath config given))) = .ok ())
    {place : List String} (hplace : changed place) (hother : ¬ c.LogsTo tree cwd place)
    (later : List (Bool × String)) {t : FileTree}
    (h : Settled changed opened (outputPath config given) place text t) :
    Settled changed opened (outputPath config given) place text
      (c.treeAfter given cwd later t) := by
  induction later generalizing t with
  | nil => exact h
  | cons r later ih =>
    exact ih (settled_run hbegins htext hreads hlog hgiven haskable hparent htell hwritten hplace
      hother h r.1 r.2).2

end Runs

/-- A run that has written the text leaves a settled tree. -/
theorem settled_of_deliver [Host] {logged : FileTree} {lines : String} {o : Outcome}
    (hlogged : opened.GrowsTo (c.LogsTo tree cwd) logged) (hgiven : given ≠ some "-")
    (ho : o = deliver logged cwd lines config given false text) (hstatus : o.status = .ok 0) :
    Host.print (writtenLine (shown cwd (outputPath config given))) = .ok () ∧
      FileTree.isAskable (outputPath config given) = true ∧
      FileTree.isAskable (outputPath config given).parent = true ∧
        ∃ place, o.tree.IsOn (outputPath config given) place ∧
          Settled (fun place ↦ c.LogsTo tree cwd place ∨
            o.tree.IsOn (outputPath config given) place) opened (outputPath config given) place text
              o.tree := by
  subst ho
  rcases deliver_cases logged cwd lines config given false text with
    ⟨-, h⟩ | ⟨-, -, hwrite, ⟨-, -, hprint⟩ | ⟨fault, hfault, -⟩⟩
  · rcases h hstatus with hdash | hcheck
    · exact absurd hdash hgiven
    · cases hcheck
  · generalize (deliver logged cwd lines config given false text).tree = written at hwrite ⊢
    have hgrows := growsTo_of_writeText hwrite fun _ hplace ↦ hplace
    obtain ⟨hparent, haskable, made, -, hmade⟩ := writeText_eq_ok_iff.mp hwrite
    obtain ⟨place, -, hadmits, hbytes⟩ := FileTree.exists_admits_of_write hmade
    exact ⟨hprint, haskable, hparent, place, FileTree.isOn_self hadmits.leads,
      (hlogged.mono fun _ ↦ .inl).trans (hgrows.mono fun _ ↦ .inr), hadmits, hbytes⟩
  · cases hfault.symm.trans hstatus

/-- **What was written is up to date, and nothing else is.**

A run that ends well leaves the output as it is for all runs to come, and each of them ends well,
whether it writes or compares: if the output is not the log, and if what the extraction reads, with
the configuration that it looks for, is neither the log nor on the way of the output.

A run that compares, in any tree, ends well iff the text of the output is the text of the schema
that is extracted.  That is so iff a schema is read from it that says the same, and the text is that
of what is read from it; provided that no node has two members of one name.

All runs are on one system and with one reader of each format, so a set of the configuration is
shown alike in all of them; and the system lets a run tell that the output is up to date. -/
theorem check_of_extract [Host] [Rust.FileParser] [Yaml.DocumentReader] [Toml.DocumentReader]
    (c : Command) {given : Option String} (hgiven : given ≠ some "-") {tree opened : FileTree}
    {cwd path : Path} {log : Option Path} {config : Config}
    (hbegins : c.Begins tree cwd log opened path config)
    (htell : CanTell cwd (outputPath config given)) :
    let p := outputPath config given
    (∀ stamp, let o := (c.extracting given false).run tree cwd stamp
      o.status = .ok 0 → o.tree.Misses (c.LogsTo tree cwd) p →
      (∀ q, Extraction.Reads opened path q →
        opened.Misses (fun place ↦ c.LogsTo tree cwd place ∨ o.tree.IsOn p place) q) →
      ∀ later, let t := c.treeAfter given cwd later o.tree
        t.read p = o.tree.read p ∧
          ∀ isCheck stamp, ((c.extracting given isCheck).run t cwd stamp).status = .ok 0) ∧
    ∀ d, (Extraction.run ⟨opened, config⟩).result = .ok d → tree.Misses (c.LogsTo tree cwd) p →
      ∃ text, d.print = .ok text ∧
        (∀ stamp, ((c.extracting given true).run tree cwd stamp).status = .ok 0 ↔
          tree.readText p = .ok text.toList) ∧
        ((∀ n ∈ d.nodes, n.data.names.Nodup) →
          (tree.readText p = .ok text.toList ↔ ∃ current e, tree.readText p = .ok current ∧
            Definitions.read (String.ofList current) = .ok e ∧ e.same d = true ∧
              e.print = .ok (String.ofList current))) := by
  refine ⟨fun stamp hstatus hmisses hreads later ↦ ?_, fun d hrun hmisses ↦ ?_⟩
  · obtain ⟨logged, lines, -, hlogged, hdeliver, hfail⟩ := exists_run hbegins given false stamp
    cases htext : (Extraction.text ⟨opened, config⟩).result with
    | error f =>
      rw [hfail f htext] at hstatus
      exact absurd hstatus (status_fail_ne _ _ _)
    | ok text =>
      obtain ⟨hwritten, haskable, hparent, place, hplace, hsettled⟩ :=
        settled_of_deliver hlogged hgiven (hdeliver text htext) hstatus
      have hother := hmisses place hsettled.admits.leads
      have hlater := settled_treeAfter hbegins htext hreads (fun _ ↦ .inl) hgiven haskable
        hparent htell hwritten (.inr hplace) hother later hsettled
      refine ⟨hlater.read.trans hsettled.read.symm, fun isCheck stamp ↦ ?_⟩
      exact (settled_run hbegins htext hreads (fun _ ↦ .inl) hgiven haskable hparent htell hwritten
        (.inr hplace) hother hlater isCheck stamp).1
  · obtain ⟨text, hprint⟩ : ∃ text, d.print = .ok text :=
      ⟨_, (Extraction.isOrdered_of_run hrun).print_eq⟩
    refine ⟨text, hprint, fun stamp ↦ ?_, fun hmembers ↦ ?_⟩
    · have htext : (Extraction.text ⟨opened, config⟩).result = .ok text :=
        Logged.result_bind_eq_ok.mpr ⟨d, hrun, hprint⟩
      obtain ⟨logged, lines, hsame, -, hdeliver, -⟩ := exists_run hbegins given true stamp
      have halike := hsame.alike_readText hmisses
      rw [hdeliver text htext, status_deliver_check logged lines hgiven htell]
      constructor
      · intro hread
        obtain ⟨_, hread', rfl⟩ := halike.symm.exists_of_eq_ok hread
        exact hread'
      · intro hread
        obtain ⟨_, hread', rfl⟩ := halike.exists_of_eq_ok hread
        exact hread'
    · have hproper := Extraction.isProper_of_run hrun hmembers
      constructor
      · intro hread
        obtain ⟨e, he⟩ :=
          (Definitions.text_eq_iff hproper hprint).mp (String.ofList_toList (s := text))
        exact ⟨_, e, hread, he⟩
      · rintro ⟨current, e, hread, he⟩
        rw [hread, ← (Definitions.text_eq_iff hproper hprint).mpr ⟨e, he⟩, String.toList_ofList]

/-! ### Outputs and logs in the way of the configuration -/

/-- A crate in a directory with a name that is no plain text of a configuration. -/
def colonCrate : FileTree where
  files := emptyCrate.files.map fun f ↦ ("a: b" :: f.1, f.2)
  directories := [["a: b"], ["a: b", "src"]]

/-- A reader that finds a module gated by a set, and shows the set in the given order. -/
@[reducible]
def setReader (items : List Yaml.Value) : Yaml.DocumentReader :=
  ⟨fun _ ↦ .ok (.mapping [(.string "crawl", .mapping
    [(.string "module_features", .mapping [(.string "m", .set items)])])])⟩

/-- A crate that declares a node in a module, with a configuration. -/
def gatedCrate : FileTree := (((emptyCrate.put ["src", "lib.rs"] (Text.bytesOf "mod m;")).put
  ["src", "m.rs"] (Text.bytesOf "ast_struct! \x7b pub struct A; \x7d")).put
  [".astschema.yml"] (Text.bytesOf "crawl: \x7bmodule_features: \x7bm: !!set \x7ba, b\x7d\x7d\x7d"))

/-- A run on the crate, with a reader that shows the set in the given order. -/
def gatedRun (items : List Yaml.Value) (arguments : List String) (tree : FileTree) : Outcome :=
  @Outcome.ofArguments .plain Rust.Grammar.fileParser (setReader items) Toml.documentReader
    arguments tree ⟨true, []⟩ ""

/-- The configuration is looked for where the output makes a directory, or where the log is.  In
both cases the output is none of the files that are there, and cannot be compared any more.  And if
a set of the configuration is shown in another order by the second run, the output is out of
date. -/
theorem not_check_of_extract :
    (let arguments := ["extract", "-o", ".astschema.yml/out.json"]
      let o := Outcome.ofArguments arguments emptyCrate ⟨true, []⟩ ""
      o.status = .ok 0 ∧ emptyCrate.file? [".astschema.yml", "out.json"] = none ∧
        (Outcome.ofArguments (arguments ++ ["--check"]) o.tree ⟨true, []⟩ "").status =
          .error (.file .isDirectory)) ∧
    (let arguments := ["--log-file", "a: b/.astschema.yml", "extract", "a: b", "-o", "out.json"]
      let stamp := "2026-01-01 00:00:00,000 "
      let o := Outcome.ofArguments arguments colonCrate ⟨true, []⟩ stamp
      o.status = .ok 0 ∧ colonCrate.file? ["a: b", "out.json"] = none ∧
        (Outcome.ofArguments (arguments ++ ["--check"]) o.tree ⟨true, []⟩ stamp).status =
          .ok 1) ∧
    let o := gatedRun [.string "a", .string "b"] ["extract", "-o", "out.json"] gatedCrate
    o.status = .ok 0 ∧ gatedCrate.file? ["out.json"] = none ∧
      (gatedRun [.string "b", .string "a"] ["extract", "-o", "out.json", "--check"] o.tree).status =
        .ok 1 := by
  decide +kernel

/-! ### A schema in a directory of its own -/

/-- A command with a log, for the crate in the current directory. -/
def loggingCommand : Command := ⟨false, some "run.log", ".", .tokens⟩

/-- The crate without nodes, with an empty log. -/
def openedCrate : FileTree := emptyCrate.put ["run.log"] []

/-- The first run on the crate without nodes. -/
def firstRun : Outcome :=
  (loggingCommand.extracting (some "out/schema.json") false).run emptyCrate ⟨true, []⟩ ""

/-- What the runs on the crate touch. -/
def touchedPlaces : List (List String) := [["run.log"], [], ["out"], ["out", "schema.json"]]

theorem begins_loggingCommand : loggingCommand.Begins emptyCrate ⟨true, []⟩
    (some ⟨true, ["run.log"]⟩) openedCrate ⟨true, []⟩ (.default ⟨true, []⟩) :=
  ⟨by decide +kernel, rfl, rfl⟩

theorem place_of_logsTo_loggingCommand {place : List String}
    (h : loggingCommand.LogsTo emptyCrate ⟨true, []⟩ place) : place = ["run.log"] := by
  obtain ⟨p, hp, hplace⟩ := h
  cases hp
  exact (Except.ok.inj hplace).symm

theorem mem_touchedPlaces {place : List String}
    (h : loggingCommand.LogsTo emptyCrate ⟨true, []⟩ place ∨
      firstRun.tree.IsOn ⟨true, ["out", "schema.json"]⟩ place) : place ∈ touchedPlaces := by
  rcases h with h | ⟨names, hnames, hplace⟩
  · rw [place_of_logsTo_loggingCommand h]
    decide
  · have hall : ∀ names ∈ ["out", "schema.json"].inits,
        firstRun.tree.placeFrom [] names = .ok names ∧ names ∈ touchedPlaces := by decide +kernel
    obtain ⟨hleads, hmem⟩ := hall names ((List.mem_inits _ _).mpr hnames)
    cases hleads.symm.trans hplace
    exact hmem

theorem misses_openedCrate {path : Path}
    (h : Extraction.Reads openedCrate ⟨true, []⟩ path) :
    openedCrate.Misses (fun place ↦ loggingCommand.LogsTo emptyCrate ⟨true, []⟩ place ∨
      firstRun.tree.IsOn ⟨true, ["out", "schema.json"]⟩ place) path := by
  intro place hplace htouched
  have hmem := mem_touchedPlaces htouched
  revert place
  suffices hall : ∀ place ∈ touchedPlaces, openedCrate.place path ≠ .ok place from
    fun place hplace _ hmem ↦ hall place hmem hplace
  cases h with
  | configuration => decide +kernel
  | spellings hx =>
    cases begins_loggingCommand.finds.symm.trans hx
    decide +kernel
  | module hx hreachable =>
    cases begins_loggingCommand.finds.symm.trans hx
    cases hreachable using Relation.ReflTransGen.head_induction_on with
    | refl => decide +kernel
    | head himports =>
      -- The root file is empty, so it names no file.
      obtain ⟨source, items, i, ⟨hsource, hitems⟩, hi, -⟩ := himports
      have hroot : Crate.source ⟨openedCrate, ⟨true, []⟩, .default⟩ (.ofString "src/lib.rs") =
          .ok ⟨"src/lib.rs", []⟩ := by decide +kernel
      cases hroot.symm.trans hsource
      cases items_emptyCrate.symm.trans hitems
      cases hi
  | manifest hx =>
    cases begins_loggingCommand.finds.symm.trans hx
    decide +kernel

theorem check_of_extract_emptyCrate : firstRun.status = .ok 0 ∧
    ((loggingCommand.extracting (some "out/schema.json") true).run firstRun.tree
      ⟨true, []⟩ "").status = .ok 0 ∧
    ((loggingCommand.extracting (some "out/schema.json") true).run emptyCrate
      ⟨true, []⟩ "").status ≠ .ok 0 := by
  have hgiven : some "out/schema.json" ≠ some "-" := by decide
  obtain ⟨hlater, hcheck⟩ :=
    check_of_extract loggingCommand hgiven begins_loggingCommand ⟨rfl, rfl⟩
  have hstatus : firstRun.status = .ok 0 := by decide +kernel
  refine ⟨hstatus, ?_, ?_⟩
  · refine (hlater "" hstatus (fun place hplace hlog ↦ ?_)
      (fun path hpath ↦ misses_openedCrate hpath) []).2 true ""
    rw [place_of_logsTo_loggingCommand hlog] at hplace
    revert hplace
    decide +kernel
  · obtain ⟨text, -, hstatus, -⟩ := hcheck ⟨"1.0.0", [], .empty⟩ (by decide +kernel)
      (fun place hplace hlog ↦ by
        rw [place_of_logsTo_loggingCommand hlog] at hplace
        revert hplace
        decide +kernel)
    rw [Ne, hstatus]
    have hread : emptyCrate.readText (outputPath (.default ⟨true, []⟩) (some "out/schema.json")) =
        .error (.unreported (.file .missing)) := by decide +kernel
    rw [hread]
    exact fun h ↦ by cases h

end Command
end NodeSchema
