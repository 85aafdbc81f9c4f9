import NodeSchema.Crawl
import NodeSchema.Proofs.Result

/-!
# What a crawl finds

A crawl hands what it has recorded from one item to the next.  It never looks at it: what an item
gives depends on the item and on the gates above it alone (`Crate.reads`), so a crawl is the same as
finding everything first (`Crate.findings`) and entering it afterwards, in the order in which it was
found (`crawl_eq`).
-/

set_option autoImplicit false

namespace NodeSchema

open Rust

/-- What items give: declarations with their gates, and renames. -/
structure Findings where
  declarations : List Declaration
  renames : List (String × String)
deriving DecidableEq

namespace Findings

/-- Nothing is given. -/
def none : Findings := ⟨[], []⟩

/-- What several items give, in order. -/
def concat (fs : List Findings) : Findings := ⟨fs.flatMap declarations, fs.flatMap renames⟩

end Findings

/-- Enters what items give, in order. -/
def Lookup.enter (l : Lookup) (f : Findings) : Lookup :=
  ⟨l.declarations.insertAll (f.declarations.map fun d ↦ (d.ident, d)),
    l.aliases.insertAll f.renames⟩

namespace Crate

/-! ## Entering findings -/

theorem enter_concat_cons (l : Lookup) (f : Findings) (fs : List Findings) :
    l.enter (.concat (f :: fs)) = (l.enter f).enter (.concat fs) := by
  simp only [Lookup.enter, Findings.concat, List.flatMap_cons, List.map_append, Table.insertAll,
    List.foldl_append]

/-- A declaration under its gates. -/
def declared (d : Declaration) (gates : List Gate) : Except Failure Findings := do
  let gate ← Gate.resolve gates
  let d ← d.gated gate
  .ok ⟨[d], []⟩

theorem result_record (l : Lookup) (d : Declaration) (gates : List Gate) :
    (record l d gates).result = (declared d gates).map l.enter := by
  rw [record, declared, Logged.result_bind, Logged.result_ofExcept]
  cases Gate.resolve gates with
  | error e => rfl
  | ok gate =>
    show (Logged.ofExcept (d.gated gate) >>= _).result = (d.gated gate >>= _).map l.enter
    rw [Logged.result_bind, Logged.result_ofExcept]
    cases d.gated gate with
    | error e => rfl
    | ok d =>
      show Logged.result (if l.declarations.has d.ident then _ else _) = _
      split
      · rw [Logged.result_bind, Logged.result_tell]
        rfl
      · rfl

/-! ## Finding without recording -/

variable [FileParser]

/-- What one item of a file gives; `find` finds what a file gives. -/
def reads (c : Crate) (find : Path → List Gate → Except Failure Findings) (source : Source)
    (path : Path) (gates : List Gate) (isRoot : Bool) (i : Attributed Item) :
    Except Failure Findings :=
  match i.item.body with
  | .module false =>
    let name := i.item.name.getD ""
    if c.settings.ignored.contains name then .ok .none
    else do
      let file ← moduleFile source name i.attributes
      find (path.parent.join (.ofString file)) (moduleGates c.settings gates name i.attributes)
  | .macroCall call => do
    match ← Declaration.recognize source call with
    | some d => declared d (Gate.add gates i.attributes)
    | none => .ok .none
  | .struct body =>
    let name := i.item.name.getD ""
    if c.settings.extra.contains name then do
      let d ← Declaration.ofStruct name body
      declared d gates
    else .ok .none
  | .use tree =>
    if isRoot && i.item.isPublic then .ok ⟨[], (Alias.ofUse tree).entries⟩ else .ok .none
  | _ => .ok .none

/-- What a file and the modules it names give, at most `fuel` files deep. -/
def finds (c : Crate) : Nat → Bool → Path → List Gate → Except Failure Findings
  | 0, _, _, _ => .error (.unreported .endless)
  | fuel + 1, isRoot, path, gates => do
    let source ← c.source path
    let items ← source.items
    (items.mapM (c.reads (c.finds fuel false) source path gates isRoot)).map .concat

/-- What a crate gives from its root file on, each file as often as it is loaded. -/
def findings (c : Crate) (root : Path) : Except Failure Findings := c.finds c.maxDepth true root []

/-! ## Recording is entering -/

variable {c : Crate} {load : Loader} {find : Path → List Gate → Except Failure Findings}
  {l : Lookup} {source : Source} {path : Path} {gates : List Gate} {isRoot : Bool}

/-- **Visiting an item enters what it gives**, if loading a file enters what the file gives. -/
theorem result_visit
    (hload : ∀ path gates l, (load path gates l).result = (find path gates).map l.enter)
    (i : Attributed Item) :
    (c.visit load source path gates isRoot l i).result =
      (c.reads find source path gates isRoot i).map l.enter := by
  rw [visit, reads]
  cases i.item.body with
  | module isInline =>
    cases isInline with
    | true => rfl
    | false =>
      dsimp only
      split
      · rw [Logged.result_bind, Logged.result_tell]
        rfl
      · rw [Logged.result_bind, Logged.result_ofExcept]
        cases moduleFile source (i.item.name.getD "") i.attributes with
        | error e => rfl
        | ok file => exact hload _ _ l
  | macroCall call =>
    dsimp only
    rw [Logged.result_bind, Logged.result_ofExcept]
    cases Declaration.recognize source call with
    | error e => rfl
    | ok recognized =>
      cases recognized with
      | none => rfl
      | some d => exact result_record l d _
  | struct body =>
    dsimp only
    split
    · rw [Logged.result_bind, Logged.result_ofExcept]
      cases Declaration.ofStruct (i.item.name.getD "") body with
      | error e => rfl
      | ok d => exact result_record l d gates
    · rfl
  | use tree =>
    dsimp only
    split <;> rfl
  | enum _ | expression _ | typeAlias _ | plain _ => rfl

theorem result_visitAll
    (hload : ∀ path gates l, (load path gates l).result = (find path gates).map l.enter)
    (items : List (Attributed Item)) :
    (c.visitAll load source path gates isRoot l items).result =
      (items.mapM (c.reads find source path gates isRoot)).map fun fs ↦ l.enter (.concat fs) := by
  induction items generalizing l with
  | nil => rfl
  | cons i is ih =>
    rw [visitAll, Logged.result_bind, result_visit hload, List.mapM_cons]
    cases c.reads find source path gates isRoot i with
    | error e => rfl
    | ok f =>
      show (c.visitAll load source path gates isRoot (l.enter f) is).result = _
      rw [ih]
      cases is.mapM (c.reads find source path gates isRoot) with
      | error e => rfl
      | ok fs => exact congrArg Except.ok (enter_concat_cons l f fs).symm

/-- **Loading a file enters what it gives.** -/
theorem result_load (fuel : Nat) (isRoot : Bool) (path : Path) (gates : List Gate) (l : Lookup) :
    (c.load fuel isRoot path gates l).result = (c.finds fuel isRoot path gates).map l.enter := by
  induction fuel generalizing isRoot path gates l with
  | zero => rfl
  | succ fuel ih =>
    rw [load, finds, Logged.result_bind, Logged.result_tell]
    show (Logged.ofExcept (c.source path) >>= _).result = _
    rw [Logged.result_bind, Logged.result_ofExcept]
    cases c.source path with
    | error e => rfl
    | ok source =>
      show (Logged.ofExcept source.items >>= _).result = Except.map _ (source.items >>= _)
      rw [Logged.result_bind, Logged.result_ofExcept]
      cases source.items with
      | error e => rfl
      | ok items =>
        show (c.visitAll (c.load fuel false) source path gates isRoot l items).result = _
        rw [result_visitAll fun path gates l ↦ ih false path gates l]
        show _ = Except.map _ (Except.map _ (items.mapM _))
        cases items.mapM (c.reads (c.finds fuel false) source path gates isRoot) with
        | error e => rfl
        | ok fs => rfl

/-- **A crawl enters what the crate gives.** -/
theorem crawl_eq (c : Crate) (root : Path) :
    (c.crawl root).result = (c.findings root).map Lookup.empty.enter := by
  rw [crawl, Logged.result_bind, result_load, ← findings]
  cases c.findings root with
  | error e => rfl
  | ok f => rfl

end Crate
end NodeSchema
