import NodeSchema.Config
import NodeSchema.Proofs.Result
import NodeSchema.Proofs.Table

/-!
# Where the texts of a configuration come from

The settings of a configuration are texts, lists of texts, and one mapping of texts to texts.  Each
setting is read from the value under its key (`Setting.value?`), and what its kind makes of this
value is `Kind.Reads`: a text is the standard one or that of a string, a number or a truth value,
and a value that is not of the kind counts as left out.

* `reads_of_ofValue` — every setting is read as its kind says;
* `strings_of_ofValue` — where the texts of a configuration come from, and from where alone they
  come if nothing but scalars stands in the mapping;
* `not_scalars_of_ofValue` — the mapping takes any value, and a missing one becomes a text.
-/

set_option autoImplicit false

namespace NodeSchema

open Yaml

/-! ## Scalars -/

namespace Yaml.Value

/-- A string, a number or a truth value. -/
def IsScalar : Value → Prop
  | .bool _ | .int _ | .float _ | .string _ => True
  | _ => False

theorem scalarText?_eq_some_iff {v : Value} {t : String} :
    v.scalarText? = some t ↔ v.IsScalar ∧ v.text = t := by
  cases v <;> simp [scalarText?, IsScalar, text]

theorem scalarText?_eq_none {v : Value} (h : ¬ v.IsScalar) : v.scalarText? = none :=
  Option.eq_none_iff_forall_ne_some.mpr fun _ ht ↦ h (scalarText?_eq_some_iff.mp ht).1

theorem entries_eq_nil {v : Value} (h : v.isSomething = false) : v.entries = [] := by
  cases v with
  | mapping es =>
    show es = []
    simpa [isSomething] using h
  | _ => rfl

end Yaml.Value

namespace Config

/-! ## The settings -/

/-- What a setting is told by: a text, a list of texts, or a mapping of texts to texts. -/
inductive Kind
  | text
  | list
  | mapping

/-- The settings that hold texts. -/
inductive Setting
  | crateRoot
  | tokenFile
  | manifest
  | output
  | version
  | ignored
  | extra
  | forced
  | external
  | std

namespace Setting

/-- What the setting is told by. -/
def kind : Setting → Kind
  | .crateRoot | .tokenFile | .manifest | .output | .version => .text
  | .ignored | .extra | .external | .std => .list
  | .forced => .mapping

/-- The section of the setting, unless it stands in none. -/
def home : Setting → Option String
  | .crateRoot | .tokenFile | .manifest | .output => some "paths"
  | .version => none
  | .ignored | .extra | .forced => some "crawl"
  | .external | .std => some "types"

/-- The key of the setting in its section. -/
def key : Setting → String
  | .crateRoot => "crate_root"
  | .tokenFile => "token_file"
  | .manifest => "manifest"
  | .output => "output"
  | .version => "version"
  | .ignored => "ignored_modules"
  | .extra => "extra_types"
  | .forced => "module_features"
  | .external => "external"
  | .std => "std"

/-- The value under the key of the setting. -/
def value? (v : Value) (s : Setting) : Option Value :=
  Value.find? (s.home.elim v.entries (sectionOf v.entries)) s.key

end Setting

/-- The texts of a mapping of texts. -/
def textsIn (t : Table String) : List String := t.entries.flatMap fun e ↦ [e.1, e.2]

/-- The texts that the setting has in a configuration. -/
def Setting.strings (c : Config) : Setting → List String
  | .crateRoot => [c.crateRoot]
  | .tokenFile => [c.tokenFile]
  | .manifest => [c.manifest]
  | .output => [c.output]
  | .version => c.version.toList
  | .ignored => c.crawl.ignored
  | .extra => c.crawl.extra
  | .forced => textsIn c.crawl.forced
  | .external => c.externalTypes
  | .std => c.stdTypes

/-! ## What a kind makes of a value -/

namespace Kind

/-- A value that a text is due for, in the value of a setting. -/
def Holds : Kind → Value → Value → Prop
  | .text, v, x => x = v
  | .list, v, x => x = v ∨ ∃ items, v = .list items ∧ x ∈ items
  | .mapping, v, x => ∃ es, v = .mapping es ∧ ∃ e ∈ es, x = e.1 ∨ x = e.2

/-- A value of the kind.  Bytes pass for a list. -/
def Takes : Kind → Value → Prop
  | .text, v => v.IsScalar
  | .list, v => (∃ s, v = .string s) ∨ (∃ items, v = .list items) ∨ ∃ bs, v = .bytes bs
  | .mapping, v => ∃ es, v = .mapping es

/-- A text that is no scalar's: the numbers that bytes consist of, and what stands in a mapping
without being a scalar. -/
def Invents : Kind → Value → String → Prop
  | .text, _, _ => False
  | .list, v, t => ∃ bs, v = .bytes bs ∧ ∃ b ∈ bs, t = toString b.toNat
  | .mapping, v, t => ∃ x, Kind.mapping.Holds v x ∧ ¬ x.IsScalar ∧ x.text = t

/-- A value that no text is invented from. -/
def IsClean : Kind → Value → Prop
  | .text, _ => True
  | .list, v => ∀ bs, v ≠ .bytes bs
  | .mapping, v => ∀ x, Kind.mapping.Holds v x → x.IsScalar

/-- The texts of a setting that counts as left out. -/
def leftOut (standard : List String) : Kind → List String
  | .text => standard
  | .list | .mapping => []

/-- The texts that were found for a setting with the given value. -/
structure Reads (kind : Kind) (v : Option Value) (standard found : List String) : Prop where
  mem : ∀ t ∈ found, t ∈ standard ∨ ∃ w ∈ v,
    (∃ x, kind.Holds w x ∧ x.IsScalar ∧ x.text = t) ∨ kind.Invents w t
  absent : v = none → found = standard
  leftOut : ∀ w ∈ v, ¬ kind.Takes w → found = kind.leftOut standard
  /-- The items of a list that are no scalars count as left out. -/
  items : kind = .list → ∀ xs, v = some (.list xs) → found = xs.filterMap Value.scalarText?

variable {kind : Kind} {v : Value} {t : String}

theorem not_invents (h : kind.IsClean v) : ¬ kind.Invents v t := by
  cases kind with
  | text => exact id
  | list =>
    rintro ⟨bs, hbs, -⟩
    exact h bs hbs
  | mapping =>
    rintro ⟨x, hx, hscalar, -⟩
    exact hscalar (h x hx)

end Kind

/-! ## The readers -/

variable {es : List (Value × Value)} {name : String}

theorem reads_textOf : Kind.text.Reads (Value.find? es name) [] (textOf es name).toList := by
  rw [textOf]
  cases Value.find? es name with
  | none => exact ⟨nofun, fun _ ↦ rfl, nofun, nofun⟩
  | some v =>
    refine ⟨fun t ht ↦ .inr ⟨v, rfl, .inl ⟨v, rfl, ?_⟩⟩, nofun, ?_, nofun⟩
    · exact Value.scalarText?_eq_some_iff.mp (Option.mem_toList.mp ht)
    · rintro w ⟨⟩ hscalar
      rw [Option.bind_some, Value.scalarText?_eq_none hscalar]
      rfl

theorem reads_pathOf (standard : String) :
    Kind.text.Reads (Value.find? es name) [standard] [pathOf es name standard] := by
  have htext : Kind.text.Reads (Value.find? es name) [] (textOf es name).toList := reads_textOf
  rw [pathOf]
  cases ht : textOf es name with
  | none => exact ⟨fun _ h ↦ .inl h, fun _ ↦ rfl, fun _ _ _ ↦ rfl, nofun⟩
  | some t =>
    rw [ht] at htext
    refine ⟨fun u hu ↦ ?_, fun hnone ↦ ?_, fun w hw hscalar ↦ ?_, nofun⟩
    · dsimp only at hu
      split at hu
      · exact .inl hu
      · obtain rfl := List.mem_singleton.mp hu
        exact .inr ((htext.mem u hu).resolve_left List.not_mem_nil)
    · cases htext.absent hnone
    · cases htext.leftOut w hw hscalar

theorem reads_textsOf (standard : List String) :
    Kind.list.Reads (Value.find? es name) standard (textsOf es name standard) := by
  rw [textsOf]
  cases Value.find? es name with
  | none => exact ⟨fun t ht ↦ .inl ht, fun _ ↦ rfl, nofun, nofun⟩
  | some v =>
    refine ⟨fun t ht ↦ .inr ⟨v, rfl, ?_⟩, nofun, ?_, ?_⟩
    · cases v with
      | string s =>
        obtain rfl := List.mem_singleton.mp ht
        exact .inl ⟨.string t, .inl rfl, trivial, rfl⟩
      | list items =>
        obtain ⟨x, hx, hxt⟩ := List.mem_filterMap.mp ht
        exact .inl ⟨x, .inr ⟨items, rfl, hx⟩, Value.scalarText?_eq_some_iff.mp hxt⟩
      | bytes bs =>
        obtain ⟨b, hb, rfl⟩ := List.mem_map.mp ht
        exact .inr ⟨bs, rfl, b, hb, rfl⟩
      | _ => cases ht
    · rintro w ⟨⟩ hnot
      cases v with
      | string s => exact absurd (.inl ⟨s, rfl⟩) hnot
      | list items => exact absurd (.inr (.inl ⟨items, rfl⟩)) hnot
      | bytes bs => exact absurd (.inr (.inr ⟨bs, rfl⟩)) hnot
      | _ => rfl
    · rintro - xs ⟨⟩
      rfl

theorem reads_forcedOf {standard t : Table String} (h : forcedOf es standard = .ok t) :
    Kind.mapping.Reads (Value.find? es "module_features") (textsIn standard) (textsIn t) := by
  rw [forcedOf] at h
  split at h
  · next hnone =>
    obtain rfl := Except.ok.inj h
    rw [hnone]
    exact ⟨fun t ht ↦ .inl ht, fun _ ↦ rfl, nofun, nofun⟩
  · next hnull =>
    obtain rfl := Except.ok.inj h
    rw [hnull]
    exact ⟨nofun, nofun, fun _ _ _ ↦ rfl, nofun⟩
  · next ms hmapping =>
    split at h
    · obtain rfl := Except.ok.inj h
      rw [hmapping]
      refine ⟨fun u hu ↦ .inr ⟨_, rfl, ?_⟩, nofun, ?_, nofun⟩
      · obtain ⟨e, he, hu⟩ := List.mem_flatMap.mp hu
        obtain ⟨m, hm, rfl⟩ := List.mem_map.mp (Table.mem_of_mem_ofPairs he)
        obtain ⟨x, hx, rfl⟩ : ∃ x, Kind.mapping.Holds (.mapping ms) x ∧ x.text = u := by
          rcases List.mem_pair.mp hu with rfl | rfl
          · exact ⟨m.1, ⟨ms, rfl, m, hm, .inl rfl⟩, rfl⟩
          · exact ⟨m.2, ⟨ms, rfl, m, hm, .inr rfl⟩, rfl⟩
        by_cases hscalar : x.IsScalar
        · exact .inl ⟨x, hx, hscalar, rfl⟩
        · exact .inr ⟨x, hx, hscalar, rfl⟩
      · rintro w ⟨⟩ hnot
        exact absurd ⟨ms, rfl⟩ hnot
    · cases h
  · cases h

/-! ## The configuration -/

theorem forced_of_ofEntries {root : Path} {es : List (Value × Value)} {c : Config}
    (h : ofEntries root es = .ok c) :
    ∃ forced, forcedOf (sectionOf es "crawl") (default root).crawl.forced = .ok forced ∧
      c = withForced root es forced := by
  obtain ⟨_, -, h⟩ := bind_eq_ok.mp h
  obtain ⟨_, -, h⟩ := bind_eq_ok.mp h
  obtain ⟨_, -, h⟩ := bind_eq_ok.mp h
  obtain ⟨forced, hforced, h⟩ := bind_eq_ok.mp h
  obtain ⟨_, -, h⟩ := bind_eq_ok.mp h
  exact ⟨forced, hforced, (Except.ok.inj h).symm⟩

/-- What counts as nothing tells as much as a mapping without entries. -/
theorem ofEntries_of_ofValue {root : Path} {v : Value} {c : Config} (h : ofValue root v = .ok c) :
    ofEntries root v.entries = .ok c := by
  rw [ofValue.eq_def] at h
  split at h
  · split at h
    · exact h
    · cases h
  · next hnothing =>
    rw [Value.entries_eq_nil (Bool.eq_false_iff.mpr hnothing), ← h]
    rfl

/-- **Every setting is read as its kind says.** -/
theorem reads_of_ofValue {root : Path} {v : Value} {c : Config} (h : ofValue root v = .ok c)
    (s : Setting) :
    s.kind.Reads (s.value? v) (s.strings (.default root)) (s.strings c) := by
  obtain ⟨forced, hforced, rfl⟩ := forced_of_ofEntries (ofEntries_of_ofValue h)
  cases s with
  | crateRoot | tokenFile | manifest | output => exact reads_pathOf _
  | version => exact reads_textOf
  | ignored | extra | external | std => exact reads_textsOf _
  | forced => exact reads_forcedOf hforced

/-- **Where the texts of a configuration come from.**  A text of a setting is a standard one, or
that of a string, a number or a truth value under the key of the setting, or it is invented from
bytes or from what stands in the mapping of features.  If nothing of this kind stands there, no text
is invented. -/
theorem strings_of_ofValue {root : Path} {v : Value} {c : Config} (h : ofValue root v = .ok c)
    (s : Setting) :
    s.kind.Reads (s.value? v) (s.strings (.default root)) (s.strings c) ∧
      ((∀ w ∈ s.value? v, s.kind.IsClean w) → ∀ t ∈ s.strings c,
        t ∈ s.strings (.default root) ∨ ∃ w ∈ s.value? v, ∃ x, s.kind.Holds w x ∧ x.IsScalar ∧
          x.text = t) := by
  refine ⟨reads_of_ofValue h s, fun hclean t ht ↦ ?_⟩
  refine ((reads_of_ofValue h s).mem t ht).imp_right ?_
  rintro ⟨w, hw, hscalar | hinvents⟩
  · exact ⟨w, hw, hscalar⟩
  · exact absurd hinvents (Kind.not_invents (hclean w hw))

/-- A configuration with a missing item in a list. -/
def listedValue : Value := .mapping
  [(.string "version", .int 3),
    (.string "crawl", .mapping
      [(.string "ignored_modules", .list [.string "a", .null, .int 2]),
        (.string "module_features", .mapping [(.string "b", .string "full")])])]

theorem strings_of_ofValue_listed : ∃ c, ofValue ⟨true, []⟩ listedValue = .ok c ∧
    Setting.ignored.strings c = ["a", "2"] ∧ Setting.version.strings c = ["3"] ∧
      (∀ w ∈ Setting.forced.value? listedValue, Setting.forced.kind.IsClean w) ∧
        ∀ t ∈ Setting.forced.strings c, t ∈ Setting.forced.strings (.default ⟨true, []⟩) ∨
          ∃ w ∈ Setting.forced.value? listedValue, ∃ x, Setting.forced.kind.Holds w x ∧
            x.IsScalar ∧ x.text = t := by
  have hclean : ∀ w ∈ Setting.forced.value? listedValue, Setting.forced.kind.IsClean w := by
    rintro w ⟨⟩ x ⟨es, ⟨⟩, e, he, hx⟩
    obtain rfl := List.mem_singleton.mp he
    rcases hx with rfl | rfl <;> trivial
  exact ⟨_, rfl, rfl, rfl, hclean, (strings_of_ofValue rfl .forced).2 hclean⟩

/-- A configuration that gates a module by a missing value. -/
def ungatedValue : Value := .mapping
  [(.string "crawl", .mapping
    [(.string "module_features", .mapping [(.string "derive", .null)])])]

/-- **A missing value becomes the text `None`** in the mapping of features. -/
theorem not_scalars_of_ofValue : ¬ ∀ (root : Path) (v : Value) (c : Config) (s : Setting),
    ofValue root v = .ok c → ∀ t ∈ s.strings c, t ∈ s.strings (.default root) ∨
      ∃ w ∈ s.value? v, ∃ x, s.kind.Holds w x ∧ x.IsScalar ∧ x.text = t := by
  intro hall
  obtain ⟨c, hc, hstrings⟩ : ∃ c, ofValue ⟨true, []⟩ ungatedValue = .ok c ∧
      Setting.forced.strings c = ["derive", "None"] := ⟨_, rfl, rfl⟩
  have hnone := hall _ _ c .forced hc "None" (by rw [hstrings]; decide)
  rcases hnone with hstandard | ⟨w, ⟨⟩, x, ⟨es, ⟨⟩, e, he, hx⟩, hscalar, htext⟩
  · exact absurd hstandard (by decide)
  · obtain rfl := List.mem_singleton.mp he
    rcases hx with rfl | rfl
    · exact absurd htext (by decide)
    · exact hscalar

end Config
end NodeSchema
