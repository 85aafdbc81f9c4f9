import NodeSchema.Feature.Cfg
import NodeSchema.Proofs.Result
import NodeSchema.Rust.Grammar.File

/-!
# The grammar of `cfg` attributes

`Cfg.Lists` is the grammar of the `cfg` attributes that are read, with the features that each of
them lists: one `feature = "name"`, or `any` of several with commas between them.  These attributes
are read and no others (`ofAttribute_grammar`).

The predicate `any` of several is a disjunction, so `any()` holds under no features at all.  It is
read as the predicate of no names, which always holds, and in this case alone the predicate that is
read differs from what is written (`holds_iff_isTrue`).
-/

set_option autoImplicit false

namespace NodeSchema
namespace Cfg

open Rust

/-! ## The grammar -/

/-- One `feature = "name"`, where the name is what stands between the quotes. -/
inductive IsFeature : List Tree → String → Prop
  | spelled {word equals : Tree} {t : Token} (hword : word.text = "feature")
      (hequals : equals.text = "=") (ht : t.kind = .string) :
    IsFeature [word, equals, .leaf t] (String.ofList (Tree.unquoted t.text.toList))

/-- A list of `feature = "name"` with commas between them; one may follow the last. -/
inductive IsList : List Tree → List String → Prop
  | nil : IsList [] []
  | last {ts : List Tree} {name : String} (h : IsFeature ts name) : IsList ts [name]
  | comma {ts rest : List Tree} {name : String} {names : List String} {mark : Tree}
      (h : IsFeature ts name) (hmark : mark.text = ",") (hrest : IsList rest names) :
    IsList (ts ++ mark :: rest) (name :: names)

/-- The arguments of a `cfg` and the features that they list. -/
inductive IsPredicate : List Tree → List String → Prop
  | feature {ts : List Tree} {name : String} (h : IsFeature ts name) : IsPredicate ts [name]
  | any {word list : Tree} {names : List String} (hword : word.text = "any")
      (hlist : list.opener? = some "(") (h : IsList list.body names) :
    IsPredicate [word, list] names

/-- The attribute has parenthesised arguments that list the given features. -/
def Lists (a : Attribute) (names : List String) : Prop :=
  ∃ g, a.arguments = some g ∧ g.opener? = some "(" ∧ IsPredicate g.body names

/-! ## Reading -/

theorem feature?_eq_some_iff {ts : List Tree} {name : String} :
    feature? ts = some name ↔ IsFeature ts name := by
  constructor
  · intro h
    rw [feature?.eq_def] at h
    split at h
    · next word equals t =>
      rw [Option.ite_none_right_eq_some, Bool.and_eq_true, Bool.and_eq_true, decide_eq_true_iff,
        decide_eq_true_iff, decide_eq_true_iff] at h
      obtain ⟨⟨⟨hword, hequals⟩, ht⟩, hname⟩ := h
      exact Option.some.inj hname ▸ .spelled hword hequals ht
    · cases h
  · rintro ⟨hword, hequals, ht⟩
    rw [feature?, hword, hequals, ht]
    rfl

/-- A feature begins with its word, and has three tokens. -/
theorem IsFeature.exists_eq {ts : List Tree} {name : String} (h : IsFeature ts name) :
    ∃ a b c, ts = [a, b, c] ∧ a.text = "feature" := by
  obtain ⟨hword, -, -⟩ := h
  exact ⟨_, _, _, rfl, hword⟩

theorem features?_eq_some_iff {ts : List Tree} {names : List String} :
    features? ts = some names ↔ IsList ts names := by
  constructor
  · intro h
    induction ts using features?.induct generalizing names with
    | case1 =>
      obtain rfl := Option.some.inj h
      exact .nil
    | case2 a b c rest ih =>
      rw [features?] at h
      obtain ⟨name, hname, h⟩ := Option.bind_eq_some_iff.mp h
      have hname := feature?_eq_some_iff.mp hname
      cases rest with
      | nil =>
        obtain rfl := Option.some.inj h
        exact .last hname
      | cons mark rest =>
        rw [Option.ite_none_right_eq_some] at h
        obtain ⟨hmark, h⟩ := h
        obtain ⟨names, hnames, rfl⟩ := Option.map_eq_some_iff.mp h
        exact .comma hname hmark (ih hnames)
    | case3 ts hnil hcons =>
      rw [features?.eq_def] at h
      split at h
      · exact absurd rfl hnil
      · exact absurd rfl (hcons _ _ _ _)
      · cases h
  · intro h
    induction h with
    | nil => rfl
    | last h =>
      obtain ⟨a, b, c, rfl, -⟩ := h.exists_eq
      rw [features?, feature?_eq_some_iff.mpr h]
      rfl
    | comma h hmark _ ih =>
      obtain ⟨a, b, c, rfl, -⟩ := h.exists_eq
      rw [List.cons_append, List.cons_append, List.cons_append, List.nil_append, features?,
        feature?_eq_some_iff.mpr h, Option.bind_eq_bind, Option.bind_some]
      dsimp only
      rw [if_pos hmark, ih]
      rfl

theorem predicate?_eq_some_iff {ts : List Tree} {f : Features} :
    predicate? ts = some f ↔ ∃ names, IsPredicate ts names ∧ f = .ofList names := by
  constructor
  · intro h
    rw [predicate?.eq_def] at h
    split at h
    · cases h
    · next first rest =>
      split_ifs at h with hany hfeature
      · split at h
        · next list =>
          rw [Option.ite_none_right_eq_some] at h
          obtain ⟨names, hnames, rfl⟩ := Option.map_eq_some_iff.mp h.2
          rw [features?_eq_some_iff] at hnames
          exact ⟨names, .any hany h.1 hnames, rfl⟩
        · cases h
      · obtain ⟨name, hname, rfl⟩ := Option.map_eq_some_iff.mp h
        rw [feature?_eq_some_iff] at hname
        exact ⟨[name], .feature hname, rfl⟩
  · rintro ⟨names, h, rfl⟩
    cases h with
    | feature h =>
      obtain ⟨a, b, c, rfl, hword⟩ := h.exists_eq
      have hany : a.text ≠ "any" := by
        rw [hword]
        decide
      rw [predicate?.eq_def]
      dsimp only
      rw [if_neg hany, if_pos hword, feature?_eq_some_iff.mpr h]
      rfl
    | any hword hlist h =>
      rw [predicate?, if_pos hword, if_pos hlist, features?_eq_some_iff.mpr h]
      rfl

theorem ofAttribute_eq_ok_iff {a : Attribute} {f : Features} :
    ofAttribute a = .ok f ↔ ∃ names, Lists a names ∧ f = .ofList names := by
  constructor
  · intro h
    rw [ofAttribute] at h
    split at h
    · next g hg =>
      split at h
      · next hopener =>
        split at h
        · next f' hf =>
          obtain rfl := Except.ok.inj h
          rw [predicate?_eq_some_iff] at hf
          obtain ⟨names, hnames, rfl⟩ := hf
          exact ⟨names, ⟨g, hg, hopener, hnames⟩, rfl⟩
        · cases h
      · cases h
    · cases h
  · rintro ⟨names, ⟨g, hg, hopener, hnames⟩, rfl⟩
    have hf : predicate? g.body = some (.ofList names) := by
      rw [predicate?_eq_some_iff]
      exact ⟨names, hnames, rfl⟩
    rw [ofAttribute, hg]
    dsimp only
    rw [if_pos hopener, hf]

theorem category_of_ofAttribute {a : Attribute} {e : Failure} (h : ofAttribute a = .error e) :
    e.category = .construct := by
  rw [ofAttribute] at h
  split at h
  · split at h
    · split at h
      · cases h
      · obtain rfl := Except.error.inj h
        rfl
    · obtain rfl := Except.error.inj h
      rfl
  · obtain rfl := Except.error.inj h
    rfl

/-- **A `cfg` attribute is read exactly if the grammar has it**, as the predicate on the set of the
features that it lists.  All others are refused as constructs that a schema cannot express:
arguments that are missing or stand in other delimiters, predicates other than `any`, and lists in
which a feature is incomplete, a comma is missing, leads or is doubled, or something follows. -/
theorem ofAttribute_grammar (a : Attribute) :
    (∀ f, ofAttribute a = .ok f ↔ ∃ names, Lists a names ∧ f = .ofList names ∧
      ∀ x, x ∈ f.names ↔ x ∈ names) ∧
    ((∃ names, Lists a names ∧ ofAttribute a = .ok (.ofList names)) ∨
      (¬ ∃ names, Lists a names) ∧ ∃ e, ofAttribute a = .error e ∧ e.category = .construct) := by
  refine ⟨fun f ↦ ?_, ?_⟩
  · rw [ofAttribute_eq_ok_iff]
    constructor
    · rintro ⟨names, hlists, rfl⟩
      exact ⟨names, hlists, rfl, fun x ↦ mem_sortedNames⟩
    · rintro ⟨names, hlists, hf, -⟩
      exact ⟨names, hlists, hf⟩
  · obtain ⟨outcome, houtcome⟩ : ∃ outcome, ofAttribute a = outcome := ⟨_, rfl⟩
    cases outcome with
    | ok f =>
      obtain ⟨names, hlists, rfl⟩ := ofAttribute_eq_ok_iff.mp houtcome
      exact .inl ⟨names, hlists, houtcome⟩
    | error e =>
      refine .inr ⟨?_, e, houtcome, category_of_ofAttribute houtcome⟩
      rintro ⟨names, hlists⟩
      rw [ofAttribute_eq_ok_iff.mpr ⟨names, hlists, rfl⟩] at houtcome
      cases houtcome

/-! ## Truth -/

/-- What is written is true under the enabled features: one of those that are listed is enabled. -/
def IsTrue (enabled : String → Bool) (a : Attribute) : Prop :=
  ∃ names, Lists a names ∧ ∃ x ∈ names, enabled x = true

/-- The attribute is `any()`. -/
def IsAnyOfNone (a : Attribute) : Prop :=
  ∃ g word list, a.arguments = some g ∧ g.opener? = some "(" ∧ g.body = [word, list] ∧
    word.text = "any" ∧ list.opener? = some "(" ∧ list.body = []

theorem Lists.ofAttribute_eq {a : Attribute} {names : List String} (h : Lists a names) :
    ofAttribute a = .ok (.ofList names) := by
  rw [ofAttribute_eq_ok_iff]
  exact ⟨names, h, rfl⟩

/-- The features that an attribute lists do not depend on how it is read. -/
theorem Lists.mem_iff {a : Attribute} {names names' : List String} (h : Lists a names)
    (h' : Lists a names') (x : String) : x ∈ names ↔ x ∈ names' := by
  have hok := h.ofAttribute_eq.symm.trans h'.ofAttribute_eq
  have hnames : sortedNames names = sortedNames names' :=
    congrArg Features.names (Except.ok.inj hok)
  rw [← mem_sortedNames, hnames, mem_sortedNames]

theorem lists_nil_iff {a : Attribute} : Lists a [] ↔ IsAnyOfNone a := by
  constructor
  · rintro ⟨g, hg, hopener, hnames⟩
    obtain ⟨body, hbody⟩ : ∃ body, g.body = body := ⟨_, rfl⟩
    rw [hbody] at hnames
    cases hnames with
    | any hword hlist h =>
      refine ⟨g, _, _, hg, hopener, hbody, hword, hlist, ?_⟩
      generalize Tree.body _ = ts at h ⊢
      cases h
      rfl
  · rintro ⟨g, word, list, hg, hopener, hbody, hword, hlist, hnone⟩
    refine ⟨g, hg, hopener, ?_⟩
    rw [hbody]
    exact .any hword hlist (hnone ▸ .nil)

theorem holds_ofList {enabled : String → Bool} {names : List String} :
    (Features.ofList names).holds enabled = true ↔
      names = [] ∨ ∃ x ∈ names, enabled x = true := by
  have hnil : sortedNames names = [] ↔ names = [] := by
    rw [List.eq_nil_iff_forall_not_mem, List.eq_nil_iff_forall_not_mem]
    exact forall_congr' fun x ↦ not_congr mem_sortedNames
  rw [Features.holds, Bool.or_eq_true, Features.isAlways, Features.ofList, List.isEmpty_iff, hnil,
    List.any_eq_true]
  exact or_congr_right (exists_congr fun x ↦ and_congr_left' mem_sortedNames)

/-- **The predicate that is read holds exactly if what is written is true, or is `any()`.**  So the
two agree under all features exactly if the attribute lists a feature at all. -/
theorem holds_iff_isTrue {a : Attribute} {f : Features} (h : ofAttribute a = .ok f) :
    (∀ enabled, f.holds enabled = true ↔ IsTrue enabled a ∨ IsAnyOfNone a) ∧
    ((∀ enabled, f.holds enabled = true ↔ IsTrue enabled a) ↔ ¬ IsAnyOfNone a) := by
  obtain ⟨names, hlists, rfl⟩ := ofAttribute_eq_ok_iff.mp h
  have htrue : ∀ enabled, IsTrue enabled a ↔ ∃ x ∈ names, enabled x = true := by
    intro enabled
    constructor
    · rintro ⟨names', hlists', x, hx, henabled⟩
      exact ⟨x, (hlists.mem_iff hlists' x).mpr hx, henabled⟩
    · intro hx
      exact ⟨names, hlists, hx⟩
  have hnone : IsAnyOfNone a ↔ names = [] := by
    rw [← lists_nil_iff]
    constructor
    · intro hnil
      exact List.eq_nil_iff_forall_not_mem.mpr fun x hx ↦
        List.not_mem_nil ((hlists.mem_iff hnil x).mp hx)
    · rintro rfl
      exact hlists
  have hholds : ∀ enabled, (Features.ofList names).holds enabled = true ↔
      IsTrue enabled a ∨ IsAnyOfNone a := by
    intro enabled
    rw [holds_ofList, htrue, hnone, or_comm]
  refine ⟨hholds, fun hall hempty ↦ ?_, fun hempty enabled ↦ ?_⟩
  · -- with nothing enabled no list of features is true
    obtain ⟨-, -, x, -, hx⟩ := (hall fun _ ↦ false).mp ((hholds _).mpr (.inr hempty))
    cases hx
  · rw [hholds, or_iff_left hempty]

/-- One feature holds exactly if it is enabled. -/
theorem holds_iff_isTrue_full :
    let a : Attribute := ⟨"cfg", "cfg(feature=\"full\")", 2,
      some (.group ⟨.mark, "(", [], 5, 6⟩ [.leaf ⟨.word, "feature", [], 6, 13⟩,
        .leaf ⟨.mark, "=", [], 13, 14⟩, .leaf ⟨.string, "\"full\"", [], 14, 20⟩]
        ⟨.mark, ")", [], 20, 21⟩), none⟩
    ofAttribute a = .ok ⟨["full"]⟩ ∧ ∀ enabled,
      (⟨["full"]⟩ : Features).holds enabled = true ↔ IsTrue enabled a ∨ IsAnyOfNone a :=
  ⟨by decide +kernel, (holds_iff_isTrue (by decide +kernel)).1⟩

/-- A module that exists under no features. -/
def anyOfNone : Source := .ofString "src/lib.rs" "#[cfg(any())]\nmod m;\n"

/-- The attribute in `anyOfNone`. -/
def anyOfNoneAttribute : Attribute :=
  ⟨"cfg", "cfg(any())", 2, some (.group ⟨.mark, "(", [], 5, 6⟩
    [.leaf ⟨.word, "any", [], 6, 9⟩, .group ⟨.mark, "(", [], 9, 10⟩ [] ⟨.mark, ")", [], 10, 11⟩]
    ⟨.mark, ")", [], 11, 12⟩), none⟩

/-- **`any()` is never true, and the predicate that is read always holds.** -/
theorem holds_anyOfNone :
    anyOfNone.items.map (·.map Attributed.attributes) = .ok [[anyOfNoneAttribute]] ∧
    ofAttribute anyOfNoneAttribute = .ok .always ∧
    ∀ enabled, Features.always.holds enabled = true ∧ ¬ IsTrue enabled anyOfNoneAttribute := by
  have hok : ofAttribute anyOfNoneAttribute = .ok .always := by decide +kernel
  have hlists : Lists anyOfNoneAttribute [] :=
    lists_nil_iff.mpr ⟨_, _, _, rfl, rfl, rfl, rfl, rfl, rfl⟩
  refine ⟨by decide +kernel, hok, fun enabled ↦ ⟨rfl, ?_⟩⟩
  rintro ⟨names, hnames, x, hx, -⟩
  exact List.not_mem_nil ((hlists.mem_iff hnames x).mpr hx)

end Cfg
end NodeSchema
