import NodeSchema.Proofs.Result
import NodeSchema.Proofs.Spelling.Balance
import NodeSchema.Proofs.Table
import NodeSchema.Proofs.Text.PathName
import NodeSchema.Spelling.Table

/-!
# The rules of a table

`IsRule` and `IsRules` are the grammar of a table: rules `[spelling] => { $path }` with semicolons
between them.  The reader goes by indices of lexemes and knows the end of the table only as an index
that the next rule must begin before, so it could read on past the end.  It does not, since the
lexemes up to the end are balanced (`File.IsAhead`) and no rule can go on with the delimiter at the
end:

* `isRule_of_rule`, `rule_of_isRule`, `rulesFrom_eq_ok_iff` — what is read is what the grammar says;
* `rulesFrom_eq_error` — what is refused is refused with a complaint about a place;
* `rulesFrom_congr` — lexemes past the end make no difference;
* `File.IsAhead.closing_lt` — a group that begins before the end ends before it;
* `IsRules.isName` — every symbol is a name;
* `rules_of_findTable` — all of this for the table that `File.findTable` finds.
-/

set_option autoImplicit false

namespace NodeSchema
namespace Spelling

open Text

/-! ## The grammar -/

/-- The text of lexemes, run together. -/
def joined (ls : List Lexeme) : String := String.join (ls.map Lexeme.text)

/-- The lexemes are a rule that gives a spelling a symbol. -/
inductive IsRule : List Lexeme → String → String → Prop
  | mk {opening closing equals greater brace unbrace : Lexeme} {spelled expansion : List Lexeme}
      {path : String} (hopening : opening.text = "[") (hspelled : Balanced spelled)
      (hclosing : closing.Closes "]") (hequals : equals.text = "=") (hgreater : greater.text = ">")
      (hbrace : brace.text = "\x7b") (hexpansion : Balanced expansion)
      (hunbrace : unbrace.Closes "\x7d") (htarget : joined expansion = "$" ++ path)
      (hpath : isPath path = true) :
      IsRule (opening :: (spelled ++ closing :: equals :: greater :: brace ::
        (expansion ++ [unbrace]))) (joined spelled) (lastName path)

/-- The lexemes are rules with semicolons between them, and possibly after the last. -/
inductive IsRules : List Lexeme → List (String × String) → Prop
  | nil : IsRules [] []
  | last {ls : List Lexeme} {spelling symbol : String} (h : IsRule ls spelling symbol) :
      IsRules ls [(spelling, symbol)]
  | cons {ls rest : List Lexeme} {separator : Lexeme} {spelling symbol : String}
      {rules : List (String × String)} (h : IsRule ls spelling symbol)
      (hseparator : separator.text = ";") (hrest : IsRules rest rules) :
      IsRules (ls ++ separator :: rest) ((spelling, symbol) :: rules)

theorem toList_dollar_append (path : String) : ("$" ++ path).toList = '$' :: path.toList :=
  String.toList_append

theorem targetOf_eq_some_iff {expansion path : String} :
    targetOf expansion = some path ↔ expansion = "$" ++ path ∧ isPath path = true := by
  constructor
  · intro h
    rw [targetOf] at h
    split at h
    · next cs hcs =>
      split at h
      · next hpath =>
        obtain rfl := Option.some.inj h
        refine ⟨String.toList_injective ?_, hpath⟩
        rw [hcs, toList_dollar_append, String.toList_ofList]
      · cases h
    · cases h
  · rintro ⟨rfl, hpath⟩
    rw [targetOf, toList_dollar_append]
    show (if isPath (String.ofList path.toList) = true then _ else _) = _
    rw [String.ofList_toList, if_pos hpath]

/-! ## What lies ahead -/

theorem isPlain_of_text {l : Lexeme} {text : String} (h : l.text = text)
    (hplain : closerOf text = none ∧ isCloser text = false) : l.IsPlain :=
  fun _ ↦ h ▸ hplain

namespace File

/-- The lexemes from an index up to `stop` are the given ones.  They are balanced, opening
delimiters among them are of their own class, and the lexeme at `stop` is a closing delimiter. -/
structure IsAhead (f : File) (stop index : Nat) (ls : List Lexeme) : Prop where
  closer : ∃ c later, f.lexemes.drop index = ls ++ c :: later ∧ isCloser c.text = true
  lexed : ∀ l ∈ ls, (closerOf l.text).isSome → l.kind = .punct
  balanced : Balanced ls
  length : index + ls.length = stop

variable {f : File} {stop index : Nat} {l : Lexeme} {ls : List Lexeme}

theorem getElem?_of_drop {later : List Lexeme} (h : f.lexemes.drop index = l :: later) :
    f.lexemes[index]? = some l := by
  rw [← List.head?_drop, h, List.head?_cons]

theorem drop_succ_of_drop {later : List Lexeme} (h : f.lexemes.drop index = l :: later) :
    f.lexemes.drop (index + 1) = later := by
  rw [← List.tail_drop, h, List.tail_cons]

theorem isText_of_drop {later : List Lexeme} {text : String}
    (h : f.lexemes.drop index = l :: later) : f.isText index text = true ↔ l.text = text := by
  rw [isText, getElem?_of_drop h]
  exact decide_eq_true_iff

namespace IsAhead

/-- The text of the next lexeme; at the end there is none that is no closing delimiter. -/
theorem isText_iff (h : f.IsAhead stop index ls) {text : String}
    (htext : isCloser text = false) :
    f.isText index text = true ↔ ∃ l rest, ls = l :: rest ∧ l.text = text := by
  obtain ⟨c, later, hdrop, hc⟩ := h.closer
  cases ls with
  | nil =>
    rw [isText_of_drop hdrop]
    constructor
    · rintro rfl
      rw [hc] at htext
      cases htext
    · rintro ⟨l, rest, hnil, -⟩
      cases hnil
  | cons l rest =>
    rw [isText_of_drop hdrop]
    constructor
    · exact fun hl ↦ ⟨l, rest, rfl, hl⟩
    · rintro ⟨l', rest', hcons, hl'⟩
      rwa [(List.cons.inj hcons).1]

theorem le (h : f.IsAhead stop index ls) : index ≤ stop := by
  rw [← h.length]
  exact Nat.le_add_right _ _

theorem lt_length (h : f.IsAhead stop index ls) : stop < f.lexemes.length := by
  obtain ⟨c, later, hdrop, -⟩ := h.closer
  have hlength := congrArg List.length hdrop
  rw [List.length_drop, List.length_append, List.length_cons] at hlength
  have := h.length
  omega

theorem tail (h : f.IsAhead stop index (l :: ls)) (hl : l.IsPlain) :
    f.IsAhead stop (index + 1) ls := by
  obtain ⟨c, later, hdrop, hc⟩ := h.closer
  refine ⟨⟨c, later, drop_succ_of_drop hdrop, hc⟩, (List.forall_mem_cons.mp h.lexed).2,
    h.balanced.tail_of_isPlain hl, ?_⟩
  rw [← h.length, List.length_cons]
  omega

theorem opens (h : f.IsAhead stop index (l :: ls)) {due : String}
    (hl : closerOf l.text = some due) : l.Opens due :=
  ⟨h.lexed l List.mem_cons_self (by rw [hl]; rfl), hl⟩

/-- The end of a group that lies ahead is found, and what it holds is rendered. -/
theorem group {c : Lexeme} {body rest : List Lexeme} {due : String}
    (h : f.IsAhead stop index (l :: (body ++ c :: rest))) (hl : l.Opens due)
    (hbody : Balanced body) (hc : c.Closes due) :
    f.closing index = .ok (index + 1 + body.length) ∧
      f.render (index + 1) (index + 1 + body.length) = joined body ∧
      f.IsAhead stop (index + 1 + body.length + 1) rest := by
  obtain ⟨d, later, hdrop, hd⟩ := h.closer
  have hnext : f.lexemes.drop (index + 1) = body ++ c :: (rest ++ d :: later) := by
    rw [drop_succ_of_drop hdrop]
    simp
  refine ⟨closing_eq_ok_iff.mpr ⟨l, due, body, c, rest ++ d :: later, ?_, hl.2, hbody, hc, rfl⟩,
    ?_, ⟨d, later, ?_, hd⟩, fun l hl ↦ h.lexed l (by simp [hl]), ?_, ?_⟩
  · rw [hdrop]
    simp
  · rw [render, joined, List.drop_take, hnext, Nat.add_sub_cancel_left, List.take_left]
  · rw [Nat.add_assoc, ← List.drop_drop, hnext, List.drop_append, List.drop_eq_nil_of_le (by omega),
      Nat.add_sub_cancel_left]
    rfl
  · obtain ⟨body', c', rest', heq, hbody', hc', hrest'⟩ := h.balanced.exists_group hl
    obtain ⟨-, -, rfl⟩ := Balanced.group_unique hl hbody hc hbody' hc' heq
    exact hrest'
  · have hlength := h.length
    simp only [List.length_cons, List.length_append] at hlength
    omega

end IsAhead

/-- The body of a group lies ahead of its first lexeme. -/
theorem isAhead_of_closing (hlexed : f.IsLexed) (h : f.closing index = .ok stop) :
    f.IsAhead stop (index + 1) ((f.lexemes.take stop).drop (index + 1)) := by
  obtain ⟨o, due, body, c, rest, hdrop, hdue, hbody, hc, rfl⟩ := closing_eq_ok_iff.mp h
  have hnext := drop_succ_of_drop hdrop
  have hwithin : (f.lexemes.take (index + 1 + body.length)).drop (index + 1) = body := by
    rw [List.drop_take, hnext, Nat.add_sub_cancel_left, List.take_left]
  rw [hwithin]
  refine ⟨⟨c, rest, hnext, hc.2 ▸ (isCloser_of_closerOf hdue).1⟩, fun l hl hopener ↦ ?_, hbody, rfl⟩
  refine hlexed l (List.mem_of_mem_drop (i := index) ?_) (.inl hopener)
  rw [hdrop]
  simp [hl]

end File

/-! ## One rule -/

section Reading

variable {f : File} {stop index : Nat} {ls : List Lexeme}

theorem IsRule.ne_nil {spelling symbol : String} (h : IsRule ls spelling symbol) : ls ≠ [] := by
  cases h
  exact List.cons_ne_nil _ _

/-- What the reader of a rule checks, by the indices of lexemes. -/
theorem rule_eq_ok_iff_indices {spelling symbol : String} {after : Nat} :
    rule f index = .ok (spelling, symbol, after) ↔
      f.isText index "[" = true ∧ ∃ close, f.closing index = .ok close ∧
        f.isText (close + 1) "=" = true ∧ f.isText (close + 2) ">" = true ∧
        f.isText (close + 3) "\x7b" = true ∧ ∃ last, f.closing (close + 3) = .ok last ∧
        ∃ path, f.render (close + 4) last = "$" ++ path ∧ isPath path = true ∧
          f.render (index + 1) close = spelling ∧ lastName path = symbol ∧ last + 1 = after := by
  rw [rule]
  by_cases hopen : f.isText index "[" = true
  · rw [if_neg (by rw [hopen]; decide), bind_eq_ok]
    refine ⟨?_, ?_⟩
    · rintro ⟨close, hclose, h⟩
      dsimp only at h
      split at h
      · cases h
      next harrow =>
      rw [Bool.not_eq_true', Bool.not_eq_false, Bool.and_eq_true] at harrow
      split at h
      · cases h
      next hbrace =>
      rw [Bool.not_eq_true', Bool.not_eq_false] at hbrace
      obtain ⟨last, hlast, h⟩ := bind_eq_ok.mp h
      split at h
      · cases h
      next path htarget =>
      obtain ⟨hrender, hpath⟩ := targetOf_eq_some_iff.mp htarget
      cases h
      exact ⟨hopen, close, hclose, harrow.1, harrow.2, hbrace, last, hlast, path, hrender, hpath,
        rfl, rfl, rfl⟩
    · rintro ⟨-, close, hclose, hequals, hgreater, hbrace, last, hlast, path, hrender, hpath, rfl,
        rfl, rfl⟩
      refine ⟨close, hclose, ?_⟩
      dsimp only
      rw [if_neg (by rw [hequals, hgreater]; decide), if_neg (by rw [hbrace]; decide)]
      refine bind_eq_ok.mpr ⟨last, hlast, ?_⟩
      rw [targetOf_eq_some_iff.mpr ⟨hrender, hpath⟩]
  · rw [if_pos (by simpa using hopen)]
    constructor
    · intro h
      cases h
    · exact fun h ↦ absurd h.1 hopen

/-- What is read as a rule is a rule. -/
theorem isRule_of_rule (h : f.IsAhead stop index ls)
    {spelling symbol : String} {after : Nat}
    (hrule : rule f index = .ok (spelling, symbol, after)) :
    ∃ read rest, ls = read ++ rest ∧ IsRule read spelling symbol ∧
      after = index + read.length ∧ f.IsAhead stop after rest := by
  obtain ⟨hopen, close, hclose, harrow, harrow', hopen', last, hlast, path, htarget, hpath, rfl,
    rfl, rfl⟩ := rule_eq_ok_iff_indices.mp hrule
  obtain ⟨opening, ls, rfl, hopening⟩ := (h.isText_iff rfl).mp hopen
  have hopens : opening.Opens "]" := h.opens (by rw [hopening]; rfl)
  obtain ⟨spelled, closing, ls, rfl, hspelled, hclosing, -⟩ := h.balanced.exists_group hopens
  obtain ⟨hend, hrender, h⟩ := h.group hopens hspelled hclosing
  obtain rfl := Except.ok.inj (hend.symm.trans hclose)
  obtain ⟨equals, ls, rfl, hequals⟩ := (h.isText_iff rfl).mp harrow
  have h := h.tail (isPlain_of_text hequals (by decide))
  obtain ⟨greater, ls, rfl, hgreater⟩ := (h.isText_iff rfl).mp harrow'
  have h := h.tail (isPlain_of_text hgreater (by decide))
  obtain ⟨brace, ls, rfl, hbrace⟩ := (h.isText_iff rfl).mp hopen'
  have hopens' : brace.Opens "\x7d" := h.opens (by rw [hbrace]; rfl)
  obtain ⟨expansion, unbrace, rest, rfl, hexpansion, hunbrace, -⟩ := h.balanced.exists_group hopens'
  obtain ⟨hend', hrender', h⟩ := h.group hopens' hexpansion hunbrace
  obtain rfl := Except.ok.inj (hend'.symm.trans hlast)
  rw [hrender]
  refine ⟨_, rest, ?_, .mk hopening hspelled hclosing hequals hgreater hbrace hexpansion hunbrace
    (hrender' ▸ htarget) hpath, ?_, h⟩
  · simp
  · simp only [List.length_cons, List.length_append, List.length_nil]
    omega

/-- A rule that lies ahead is read. -/
theorem rule_of_isRule {read rest : List Lexeme}
    (h : f.IsAhead stop index (read ++ rest)) {spelling symbol : String}
    (hread : IsRule read spelling symbol) :
    rule f index = .ok (spelling, symbol, index + read.length) ∧
      f.IsAhead stop (index + read.length) rest := by
  cases hread with
  | @mk opening closing equals greater brace unbrace spelled expansion path hopening hspelled
      hclosing hequals hgreater hbrace hexpansion hunbrace htarget hpath =>
    have hls : opening :: (spelled ++ closing :: equals :: greater :: brace ::
        (expansion ++ [unbrace])) ++ rest = opening :: (spelled ++ closing :: equals :: greater ::
          brace :: (expansion ++ unbrace :: rest)) := by simp
    rw [hls] at h
    have hopens : opening.Opens "]" := h.opens (by rw [hopening]; rfl)
    obtain ⟨hend, hrender, harrow⟩ := h.group hopens hspelled hclosing
    have harrow' := harrow.tail (isPlain_of_text hequals (by decide))
    have hopen' := harrow'.tail (isPlain_of_text hgreater (by decide))
    have hopens' : brace.Opens "\x7d" := hopen'.opens (by rw [hbrace]; rfl)
    obtain ⟨hend', hrender', hafter⟩ := hopen'.group hopens' hexpansion hunbrace
    have hlength : index + (opening :: (spelled ++ closing :: equals :: greater :: brace ::
        (expansion ++ [unbrace]))).length =
          index + 1 + spelled.length + 1 + 1 + 1 + 1 + expansion.length + 1 := by
      simp only [List.length_cons, List.length_append, List.length_nil]
      omega
    rw [hlength]
    refine ⟨rule_eq_ok_iff_indices.mpr ⟨(h.isText_iff rfl).mpr ⟨_, _, rfl, hopening⟩, _, hend,
      (harrow.isText_iff rfl).mpr ⟨_, _, rfl, hequals⟩,
      (harrow'.isText_iff rfl).mpr ⟨_, _, rfl, hgreater⟩,
      (hopen'.isText_iff rfl).mpr ⟨_, _, rfl, hbrace⟩, _, hend', path, ?_, hpath, hrender, rfl,
      rfl⟩, hafter⟩
    exact hrender'.trans htarget

/-! ## All rules -/

theorem isRules_nil_iff {rules : List (String × String)} : IsRules [] rules ↔ rules = [] := by
  constructor
  · intro h
    generalize hls : ([] : List Lexeme) = ls at h
    cases h with
    | nil => rfl
    | last h => exact absurd hls.symm h.ne_nil
    | cons => simp at hls
  · rintro rfl
    exact .nil

/-- **The reader reads what the grammar says**, if it may take as many steps as there are
lexemes. -/
theorem rulesFrom_eq_ok_iff {fuel : Nat} (h : f.IsAhead stop index ls)
    (hfuel : ls.length ≤ fuel) {table table' : Table String} :
    rulesFrom f stop fuel index table = .ok table' ↔
      ∃ rules, IsRules ls rules ∧ table' = table.insertAll rules := by
  induction fuel generalizing index ls table with
  | zero =>
    obtain rfl := List.eq_nil_of_length_eq_zero (Nat.le_zero.mp hfuel)
    simp only [isRules_nil_iff, exists_eq_left, rulesFrom, Except.ok.injEq]
    exact eq_comm
  | succ fuel ih =>
    rw [rulesFrom]
    have hlength := h.length
    by_cases hend : ls = []
    · subst hend
      rw [if_neg (by rw [← hlength]; exact Nat.lt_irrefl index)]
      simp only [isRules_nil_iff, exists_eq_left, Except.ok.injEq]
      exact eq_comm
    have hpos := List.length_pos_of_ne_nil hend
    rw [if_pos (by omega), bind_eq_ok]
    constructor
    · rintro ⟨⟨spelling, symbol, after⟩, hrule, hrules⟩
      obtain ⟨read, rest, rfl, hread, rfl, hrest⟩ := isRule_of_rule h hrule
      have hread_pos := List.length_pos_of_ne_nil hread.ne_nil
      have hrest_length := hrest.length
      rw [List.length_append] at hfuel
      dsimp only at hrules
      cases rest with
      | nil =>
        rw [List.length_nil] at hrest_length
        rw [if_neg (by omega)] at hrules
        obtain rfl := Except.ok.inj hrules
        exact ⟨[(spelling, symbol)], by rw [List.append_nil]; exact .last hread, rfl⟩
      | cons separator rest =>
        rw [List.length_cons] at hrest_length hfuel
        rw [if_pos (by omega)] at hrules
        split at hrules
        · next hseparator =>
          obtain ⟨_, _, hcons, hseparator⟩ := (hrest.isText_iff rfl).mp hseparator
          obtain ⟨rfl, rfl⟩ := List.cons.inj hcons
          obtain ⟨rules, hgrammar, rfl⟩ :=
            (ih (hrest.tail (isPlain_of_text hseparator (by decide))) (by omega)).mp hrules
          exact ⟨_, .cons hread hseparator hgrammar, rfl⟩
        · cases hrules
    · rintro ⟨rules, hrules, rfl⟩
      cases hrules with
      | nil => exact absurd rfl hend
      | @last _ spelling symbol hread =>
        rw [← List.append_nil ls] at h
        obtain ⟨hrule, hrest⟩ := rule_of_isRule h hread
        have hrest_length := hrest.length
        rw [List.length_nil] at hrest_length
        refine ⟨_, hrule, ?_⟩
        dsimp only
        rw [if_neg (by omega)]
        rfl
      | @cons read rest separator spelling symbol rules hread hseparator hrules =>
        obtain ⟨hrule, hrest⟩ := rule_of_isRule h hread
        have hread_pos := List.length_pos_of_ne_nil hread.ne_nil
        have hrest_length := hrest.length
        rw [List.length_append, List.length_cons] at hfuel
        rw [List.length_cons] at hrest_length
        refine ⟨_, hrule, ?_⟩
        dsimp only
        rw [if_pos (by omega), if_pos ((hrest.isText_iff rfl).mpr ⟨_, _, rfl, hseparator⟩)]
        have htail := hrest.tail (isPlain_of_text hseparator (by decide))
        exact (ih htail (by omega)).mpr ⟨rules, hrules, rfl⟩

/-! ## Refusal -/

theorem closing_eq_error {e : Failure} (h : f.closing index = .error e) :
    ∃ position complaint, e = .located f.path position complaint := by
  rw [File.closing] at h
  split at h
  · cases h
    exact ⟨_, _, rfl⟩
  · split at h <;> cases h
    · exact ⟨_, _, rfl⟩
    · exact ⟨_, _, rfl⟩

theorem rule_eq_error {e : Failure} (h : rule f index = .error e) :
    ∃ position complaint, e = .located f.path position complaint := by
  rw [rule] at h
  split at h
  · cases h
    exact ⟨_, _, rfl⟩
  rcases bind_eq_error.mp h with h | ⟨close, -, h⟩
  · exact closing_eq_error h
  dsimp only at h
  split at h
  · cases h
    exact ⟨_, _, rfl⟩
  split at h
  · cases h
    exact ⟨_, _, rfl⟩
  rcases bind_eq_error.mp h with h | ⟨last, -, h⟩
  · exact closing_eq_error h
  split at h <;> cases h
  exact ⟨_, _, rfl⟩

/-- **What is no rule is refused with a complaint about a place of the file.** -/
theorem rulesFrom_eq_error {fuel : Nat} {table : Table String} {e : Failure}
    (h : rulesFrom f stop fuel index table = .error e) :
    ∃ position complaint, e = .located f.path position complaint := by
  induction fuel generalizing index table with
  | zero => cases h
  | succ fuel ih =>
    rw [rulesFrom] at h
    split at h
    · rcases bind_eq_error.mp h with h | ⟨⟨spelling, symbol, after⟩, -, h⟩
      · exact rule_eq_error h
      dsimp only at h
      split at h
      · split at h
        · exact ih h
        · cases h
          exact ⟨_, _, rfl⟩
      · cases h
    · cases h

/-! ## What lies past the end -/

namespace File

/-- Two files have the same lexemes up to an index, with the index itself. -/
structure AgreeUpTo (f f' : File) (stop : Nat) : Prop where
  path_eq : f'.path = f.path
  text_eq : f'.text = f.text
  take_eq : f'.lexemes.take (stop + 1) = f.lexemes.take (stop + 1)

/-- What follows an index may be replaced. -/
theorem agreeUpTo_append (hstop : stop < f.lexemes.length) (later : List Lexeme) :
    f.AgreeUpTo { f with lexemes := f.lexemes.take (stop + 1) ++ later } stop := by
  refine ⟨rfl, rfl, ?_⟩
  show (f.lexemes.take (stop + 1) ++ later).take (stop + 1) = _
  rw [List.take_append_of_le_length (by rw [List.length_take]; omega), List.take_take,
    Nat.min_self]

variable {f' : File}

theorem AgreeUpTo.getElem?_eq (h : f.AgreeUpTo f' stop) {i : Nat} (hi : i ≤ stop) :
    f'.lexemes[i]? = f.lexemes[i]? := by
  have hget := congrArg (fun ls : List Lexeme ↦ ls[i]?) h.take_eq
  simpa only [List.getElem?_take, if_pos (Nat.lt_succ_of_le hi)] using hget

theorem AgreeUpTo.isText_eq (h : f.AgreeUpTo f' stop) {i : Nat} (hi : i ≤ stop) (text : String) :
    f'.isText i text = f.isText i text := by
  rw [isText, isText, h.getElem?_eq hi]

theorem AgreeUpTo.complain_eq (h : f.AgreeUpTo f' stop) {i : Nat} (hi : i ≤ stop)
    (complaint : Complaint) : f'.complain i complaint = f.complain i complaint := by
  rw [complain, complain, offset, offset, h.getElem?_eq hi, h.path_eq, h.text_eq]

theorem AgreeUpTo.isAhead (h : f.AgreeUpTo f' stop) (hahead : f.IsAhead stop index ls) :
    f'.IsAhead stop index ls := by
  obtain ⟨c, later, hdrop, hc⟩ := hahead.closer
  have hlength := hahead.length
  have hwithin : (f'.lexemes.take (stop + 1)).drop index = ls ++ [c] := by
    rw [h.take_eq, List.drop_take, hdrop, ← hlength, Nat.add_assoc, Nat.add_sub_cancel_left,
      List.take_length_add_append]
    rfl
  have hle : index ≤ (f'.lexemes.take (stop + 1)).length := by
    have := congrArg List.length hwithin
    rw [List.length_drop, List.length_append, List.length_singleton] at this
    omega
  refine ⟨⟨c, f'.lexemes.drop (stop + 1), ?_, hc⟩, hahead.lexed, hahead.balanced, hlength⟩
  rw [← List.take_append_drop (stop + 1) f'.lexemes, List.drop_append_of_le_length hle, hwithin,
    List.take_append_drop, List.append_assoc]
  rfl

end File

variable {f' : File}

theorem rule_congr (hagree : f.AgreeUpTo f' stop) (h : f.IsAhead stop index ls) :
    rule f' index = rule f index := by
  rw [rule, rule, hagree.isText_eq h.le, hagree.complain_eq h.le]
  by_cases hopen : f.isText index "[" = true
  swap
  · rw [if_pos (by simpa using hopen), if_pos (by simpa using hopen)]
  rw [if_neg (by simpa using hopen), if_neg (by simpa using hopen)]
  obtain ⟨opening, ls, rfl, hopening⟩ := (h.isText_iff rfl).mp hopen
  have hopens : opening.Opens "]" := h.opens (by rw [hopening]; rfl)
  obtain ⟨spelled, closing, ls, rfl, hspelled, hclosing, -⟩ := h.balanced.exists_group hopens
  obtain ⟨hend, hrender, harrow⟩ := h.group hopens hspelled hclosing
  obtain ⟨hend', hrender', -⟩ := (hagree.isAhead h).group hopens hspelled hclosing
  rw [hend, hend']
  generalize index + 1 + spelled.length = close at harrow hrender hrender'
  have hle : close + 1 ≤ stop := harrow.le
  -- Up to the end of the group the two readings agree; both go on behind it.
  show (if (!(f'.isText (close + 1) "=" && f'.isText (close + 2) ">")) = true then _ else _) =
    if (!(f.isText (close + 1) "=" && f.isText (close + 2) ">")) = true then _ else _
  rw [hagree.complain_eq hle, hagree.isText_eq hle]
  by_cases hequals : f.isText (close + 1) "=" = true
  swap
  · rw [Bool.eq_false_iff.mpr hequals]
    rfl
  obtain ⟨equals, ls, rfl, hequals'⟩ := (harrow.isText_iff rfl).mp hequals
  have harrow' := harrow.tail (isPlain_of_text hequals' (by decide))
  rw [hagree.isText_eq harrow'.le]
  by_cases hgreater : f.isText (close + 2) ">" = true
  swap
  · rw [Bool.eq_false_iff.mpr hgreater, Bool.and_false]
    rfl
  obtain ⟨greater, ls, rfl, hgreater'⟩ := (harrow'.isText_iff rfl).mp hgreater
  have hopen' := harrow'.tail (isPlain_of_text hgreater' (by decide))
  rw [hequals, hgreater]
  show (if (!f'.isText (close + 3) "\x7b") = true then _ else _) =
    if (!f.isText (close + 3) "\x7b") = true then _ else _
  rw [hagree.isText_eq (i := close + 3) hopen'.le]
  simp only [hagree.complain_eq (i := close + 1 + 2) hopen'.le]
  by_cases hbrace : f.isText (close + 3) "\x7b" = true
  swap
  · rw [Bool.eq_false_iff.mpr hbrace]
    rfl
  obtain ⟨brace, ls, rfl, hbrace'⟩ := (hopen'.isText_iff rfl).mp hbrace
  have hopens' : brace.Opens "\x7d" := hopen'.opens (by rw [hbrace']; rfl)
  obtain ⟨expansion, unbrace, ls, rfl, hexpansion, hunbrace, -⟩ :=
    hopen'.balanced.exists_group hopens'
  obtain ⟨hlast, htarget, -⟩ := hopen'.group hopens' hexpansion hunbrace
  obtain ⟨hlast', htarget', -⟩ := (hagree.isAhead hopen').group hopens' hexpansion hunbrace
  rw [hbrace, hrender, hrender']
  show (f'.closing (close + 3) >>= _) = f.closing (close + 3) >>= _
  rw [show f'.closing (close + 3) = _ from hlast', show f.closing (close + 3) = _ from hlast]
  dsimp only [bind, Except.bind]
  rw [htarget, htarget']

theorem rulesFrom_congr (hagree : f.AgreeUpTo f' stop) (h : f.IsAhead stop index ls) (fuel : Nat)
    (table : Table String) :
    rulesFrom f' stop fuel index table = rulesFrom f stop fuel index table := by
  induction fuel generalizing index ls table with
  | zero => rfl
  | succ fuel ih =>
    rw [rulesFrom, rulesFrom, rule_congr hagree h]
    split
    · cases hrule : rule f index with
      | error e => rfl
      | ok result =>
        obtain ⟨spelling, symbol, after⟩ := result
        obtain ⟨read, rest, rfl, hread, -, hrest⟩ := isRule_of_rule h hrule
        show (if after < stop then _ else _) = if after < stop then _ else _
        rw [hagree.isText_eq hrest.le, hagree.complain_eq hrest.le]
        split
        · split
          · next hseparator =>
            obtain ⟨separator, rest, rfl, hseparator⟩ := (hrest.isText_iff rfl).mp hseparator
            exact ih (hrest.tail (isPlain_of_text hseparator (by decide))) _
          · rfl
        · rfl
    · rfl

/-! ## The ends of groups -/

theorem File.IsAhead.exists_append (h : f.IsAhead stop index ls) {i : Nat} (hi : index ≤ i)
    (hstop : i < stop) : ∃ before l after, ls = before ++ l :: after ∧ f.lexemes[i]? = some l ∧
      i = index + before.length := by
  have hlength := h.length
  have hlt : i - index < ls.length := by omega
  refine ⟨ls.take (i - index), ls[i - index], ls.drop (i - index + 1), ?_, ?_, ?_⟩
  · rw [← List.drop_eq_getElem_cons hlt, List.take_append_drop]
  · obtain ⟨c, later, hdrop, -⟩ := h.closer
    have hget := congrArg (fun ls : List Lexeme ↦ ls[i - index]?) hdrop
    rw [← List.getElem?_eq_getElem hlt]
    simpa only [List.getElem?_drop, Nat.add_sub_cancel' hi, List.getElem?_append_left hlt]
      using hget
  · rw [List.length_take]
    omega

/-- **A group that begins before the end of the table ends before it.** -/
theorem File.IsAhead.closing_lt (h : f.IsAhead stop index ls) {i : Nat} (hi : index ≤ i)
    (hstop : i < stop) {opener due : String} (htext : f.isText i opener = true)
    (hdue : closerOf opener = some due) : ∃ last, f.closing i = .ok last ∧ last < stop := by
  obtain ⟨before, l, after, rfl, hget, rfl⟩ := h.exists_append hi hstop
  have hl : l.text = opener := by
    rw [File.isText, hget] at htext
    exact of_decide_eq_true htext
  have hopens : l.Opens due :=
    ⟨h.lexed l (by simp) (by rw [hl, hdue]; rfl), by rw [hl, hdue]⟩
  obtain ⟨body, c, rest, rfl, hbody, hc⟩ := h.balanced.exists_group_of_mem hopens
  obtain ⟨d, later, hdrop, -⟩ := h.closer
  refine ⟨_, closing_eq_ok_iff.mpr ⟨l, due, body, c, rest ++ d :: later, ?_, hopens.2, hbody, hc,
    rfl⟩, ?_⟩
  · rw [← List.drop_drop, hdrop]
    simp
  · have hlength := h.length
    simp only [List.length_append, List.length_cons] at hlength
    omega

/-- The lexeme past a group is before the end of the table, if it has a text that no closing
delimiter has. -/
theorem File.IsAhead.lt_of_isText (h : f.IsAhead stop index ls) {i : Nat}
    (hle : i ≤ stop) {text : String} (hcloser : isCloser text = false)
    (htext : f.isText i text = true) : i < stop := by
  rcases Nat.lt_or_eq_of_le hle with hlt | rfl
  · exact hlt
  obtain ⟨c, later, hdrop, hc⟩ := h.closer
  have hend : f.lexemes.drop i = c :: later := by
    rw [← h.length, ← List.drop_drop, hdrop, List.drop_left]
  rw [(isText_of_drop hend).mp htext, hcloser] at hc
  cases hc

end Reading

/-! ## Symbols are names -/

theorem kind_of_measureComment {c : Char} {rest : List Char} {kind : PieceKind} {n : Nat}
    (h : measureComment c rest = some (kind, n)) : kind = .comment := by
  rw [measureComment.eq_def] at h
  split at h
  · exact (Prod.mk.inj (Option.some.inj h)).1.symm
  · obtain ⟨_, -, h⟩ := Option.map_eq_some_iff.mp h
    exact (Prod.mk.inj h).1.symm
  · cases h

/-- A character that begins or ends what is quoted. -/
def IsQuote (c : Char) : Prop := c = '"' ∨ c = '\''

theorem exists_quote_of_measureQuoted {c : Char} {rest : List Char} {kind : PieceKind} {n : Nat}
    (h : measureQuoted c rest = some (kind, n)) : ∃ q ∈ c :: rest.take (n - 1), IsQuote q := by
  rw [measureQuoted.eq_def] at h
  split at h
  · exact ⟨'"', List.mem_cons_self, .inl rfl⟩
  · exact ⟨'\'', List.mem_cons_self, .inr rfl⟩
  · obtain ⟨m, -, h⟩ := Option.map_eq_some_iff.mp h
    obtain ⟨-, rfl⟩ := Prod.mk.inj h
    exact ⟨'"', by simp, .inl rfl⟩
  · obtain ⟨m, -, h⟩ := Option.map_eq_some_iff.mp h
    obtain ⟨-, rfl⟩ := Prod.mk.inj h
    exact ⟨'\'', by simp, .inr rfl⟩
  · cases h

theorem line_notMem_take_wordRun (rest : List Char) : '\n' ∉ rest.take (wordRun rest) := by
  rw [wordRun, ← List.prefix_iff_eq_take.mp (List.takeWhile_prefix isWordChar)]
  intro h
  have hword := List.all_eq_true.mp List.all_takeWhile _ h
  exact absurd hword (by decide)

theorem ne_line_of_isNameStart {c : Char} (h : isNameStart c = true) : '\n' ≠ c := by
  rintro rfl
  exact absurd h (by decide)

theorem exists_quote_of_measureWord {c : Char} {rest : List Char} {kind : PieceKind} {n : Nat}
    (h : measureWord c rest = some (kind, n)) (hline : '\n' ∈ c :: rest.take (n - 1)) :
    ∃ q ∈ c :: rest.take (n - 1), IsQuote q := by
  rw [measureWord.eq_def] at h
  split at h
  · exact ⟨'\'', List.mem_cons_self, .inr rfl⟩
  · next s more =>
    split at h
    · next hs =>
      obtain ⟨-, rfl⟩ := Prod.mk.inj (Option.some.inj h)
      rw [show 3 + wordRun more - 1 = wordRun more + 2 by omega] at hline
      simp [line_notMem_take_wordRun, ne_line_of_isNameStart hs] at hline
    · obtain ⟨-, rfl⟩ := Prod.mk.inj (Option.some.inj h)
      simp at hline
  · split at h
    · next hc =>
      obtain ⟨-, rfl⟩ := Prod.mk.inj (Option.some.inj h)
      rw [Nat.add_sub_cancel_left] at hline
      simp [line_notMem_take_wordRun, ne_line_of_isNameStart hc] at hline
    · split at h
      · next hc =>
        obtain ⟨-, rfl⟩ := Prod.mk.inj (Option.some.inj h)
        have hline' : '\n' ≠ c := by
          rintro rfl
          exact absurd hc (by decide)
        rw [Nat.add_sub_cancel_left] at hline
        simp [line_notMem_take_wordRun, hline'] at hline
      · cases h

/-- A lexeme that goes over the end of a line is quoted. -/
theorem exists_quote_of_mem_lexemes {text : List Char} {l : Lexeme} (hl : l ∈ lexemes text)
    (hline : '\n' ∈ l.text.toList) : ∃ q ∈ l.text.toList, IsQuote q := by
  obtain ⟨hscan, htrivia⟩ := List.mem_filter.mp hl
  obtain ⟨c, rest, hkind, htext⟩ := exists_measure_of_mem_scanAfter hscan
  rw [htext, String.toList_ofList] at hline ⊢
  rw [hkind] at htrivia
  rw [measure] at htrivia hline ⊢
  by_cases hblank : isBlank c = true
  · rw [if_pos hblank] at htrivia
    cases htrivia
  rw [if_neg hblank] at htrivia hline ⊢
  cases hcomment : measureComment c rest with
  | some piece =>
    rw [hcomment, Option.some_or, Option.some_or, Option.getD_some,
      kind_of_measureComment hcomment] at htrivia
    cases htrivia
  | none =>
    rw [hcomment, Option.none_or] at hline
    rw [Option.none_or]
    cases hquoted : measureQuoted c rest with
    | some piece =>
      rw [Option.some_or, Option.getD_some]
      exact exists_quote_of_measureQuoted hquoted
    | none =>
      rw [hquoted, Option.none_or] at hline
      rw [Option.none_or]
      cases hword : measureWord c rest with
      | some piece =>
        rw [hword, Option.getD_some] at hline
        exact exists_quote_of_measureWord hword hline
      | none =>
        rw [hword] at hline
        obtain rfl := List.mem_singleton.mp hline
        exact absurd (show isBlank '\n' = true by decide) hblank

theorem toList_joined (ls : List Lexeme) :
    (joined ls).toList = ls.flatMap fun l ↦ l.text.toList := by
  rw [joined, String.toList_join, List.flatMap_map]

/-- **The symbol of a rule is a name.** -/
theorem IsRule.isName {ls : List Lexeme} {spelling symbol : String}
    (h : IsRule ls spelling symbol)
    (hquoted : ∀ l ∈ ls, '\n' ∈ l.text.toList → ∃ q ∈ l.text.toList, IsQuote q) :
    IsName symbol.toList := by
  cases h with
  | @mk opening closing equals greater brace unbrace spelled expansion path _ _ _ _ _ _ _ _ htarget
      hpath =>
    rw [lastName, String.toList_ofList]
    refine isName_lastPart hpath fun hline ↦ ?_
    -- The path would go over the end of a line, hence hold a quote.
    have hchars : (expansion.flatMap fun l ↦ l.text.toList) = '$' :: path.toList := by
      rw [← toList_joined, htarget, toList_dollar_append]
    have hmem : '\n' ∈ expansion.flatMap fun l ↦ l.text.toList := by
      rw [hchars]
      exact List.mem_cons_of_mem _ hline
    obtain ⟨l, hl, hline⟩ := List.mem_flatMap.mp hmem
    obtain ⟨q, hq, hquote⟩ := hquoted l (by simp [hl]) hline
    have hmem : q ∈ '$' :: path.toList := hchars ▸ List.mem_flatMap.mpr ⟨l, hl, hq⟩
    rcases hquote with rfl | rfl <;> rcases List.mem_cons.mp hmem with hdollar | hmem
    · cases hdollar
    · rcases isPathChar_of_isPath hpath _ hmem with (h | h) | h
      · exact absurd h (by decide)
      · cases h
      · cases h
    · cases hdollar
    · rcases isPathChar_of_isPath hpath _ hmem with (h | h) | h
      · exact absurd h (by decide)
      · cases h
      · cases h

theorem IsRules.isName {ls : List Lexeme} {rules : List (String × String)} (h : IsRules ls rules)
    (hquoted : ∀ l ∈ ls, '\n' ∈ l.text.toList → ∃ q ∈ l.text.toList, IsQuote q) :
    ∀ r ∈ rules, IsName r.2.toList := by
  induction h with
  | nil => exact fun _ hr ↦ absurd hr List.not_mem_nil
  | last h =>
    intro r hr
    obtain rfl := List.mem_singleton.mp hr
    exact h.isName hquoted
  | cons h _ _ ih =>
    refine List.forall_mem_cons.mpr ⟨h.isName fun l hl ↦ hquoted l (by simp [hl]), ih fun l hl ↦ ?_⟩
    exact hquoted l (by simp [hl])

/-! ## The table that a file holds -/

theorem closing_of_findTableFrom {f : File} {skip index start stop : Nat} {ls : List Lexeme}
    (h : f.findTableFrom skip index ls = .ok (some (start, stop))) :
    ∃ i, start = i + 1 ∧ f.closing i = .ok stop := by
  induction ls generalizing skip index with
  | nil => cases h
  | cons l ls ih =>
    cases skip with
    | succ skip => exact ih h
    | zero =>
      rw [File.findTableFrom] at h
      split at h
      · obtain ⟨last, hlast, h⟩ := map_eq_ok.mp h
        cases h
        exact ⟨index + 3, rfl, hlast⟩
      · split at h
        · split at h
          · exact ih h
          · cases h
        · exact ih h

/-- **The rules of the table that is found.**  They are read iff they are in the grammar, and
refused with a complaint about a place otherwise.  The table has the spellings in the order in
which they came first, each with the symbol of its last rule, and the symbols are names.  Lexemes
past the end of the table make no difference, and the groups that the reader looks at end before
the table does. -/
theorem rules_of_findTable {path : String} {text : List Char} {start stop : Nat}
    (h : (File.ofText path text).findTable = .ok (some (start, stop))) :
    let f := File.ofText path text
    let body := (f.lexemes.take stop).drop start
    ((∃ table, rules f start stop = .ok table) ↔ ∃ rs, IsRules body rs) ∧
    (∀ e, rules f start stop = .error e →
      ∃ position complaint, e = .located path position complaint) ∧
    (∀ table rs, rules f start stop = .ok table → IsRules body rs →
      (∀ spelling, table.find? spelling = (Table.valuesOf spelling rs).getLast?) ∧
      table.names = (rs.map Prod.fst).eraseDups ∧
      ∀ entry ∈ table.entries, IsName entry.2.toList) ∧
    (∀ later, rules { f with lexemes := f.lexemes.take (stop + 1) ++ later } start stop =
      rules f start stop) ∧
    ∀ index, start ≤ index → index < stop → f.isText index "[" = true →
      ∃ close, f.closing index = .ok close ∧ close < stop ∧
        (f.isText (close + 1) "=" = true → f.isText (close + 2) ">" = true →
          f.isText (close + 3) "\x7b" = true →
          ∃ last, f.closing (close + 3) = .ok last ∧ last < stop) := by
  intro f body
  obtain ⟨i, rfl, hclosing⟩ := closing_of_findTableFrom h
  have hahead : f.IsAhead stop (i + 1) body :=
    File.isAhead_of_closing (File.isLexed_ofText path text) hclosing
  have hfuel : body.length ≤ stop - (i + 1) := by
    have := hahead.length
    omega
  have hrules (table : Table String) : rules f (i + 1) stop = .ok table ↔
      ∃ rs, IsRules body rs ∧ table = Table.ofPairs rs := rulesFrom_eq_ok_iff hahead hfuel
  refine ⟨?_, fun e he ↦ rulesFrom_eq_error he, ?_, ?_, ?_⟩
  · constructor
    · rintro ⟨table, htable⟩
      obtain ⟨rs, hrs, -⟩ := (hrules table).mp htable
      exact ⟨rs, hrs⟩
    · rintro ⟨rs, hrs⟩
      exact ⟨_, (hrules _).mpr ⟨rs, hrs, rfl⟩⟩
  · intro table rs htable hrs
    have hpairs := (hrules _).mpr ⟨rs, hrs, rfl⟩
    obtain rfl := Except.ok.inj (htable.symm.trans hpairs)
    refine ⟨Table.find?_ofPairs rs, Table.names_ofPairs rs, fun entry hentry ↦ ?_⟩
    have hfound := (Table.find?_eq_some_iff (Table.isMap_ofPairs rs)).mpr hentry
    rw [Table.find?_ofPairs] at hfound
    obtain ⟨r, hr, hvalue⟩ := List.mem_map.mp (List.mem_of_getLast? hfound)
    rw [← hvalue]
    refine hrs.isName (fun l hl ↦ ?_) r (List.mem_filter.mp hr).1
    have hl : l ∈ lexemes text := List.mem_of_mem_take (List.mem_of_mem_drop hl)
    exact exists_quote_of_mem_lexemes hl
  · intro later
    have hagree : f.AgreeUpTo { f with lexemes := f.lexemes.take (stop + 1) ++ later } stop :=
      File.agreeUpTo_append hahead.lt_length later
    exact rulesFrom_congr hagree hahead _ _
  · intro index hstart hstop hopen
    obtain ⟨close, hclose, hlt⟩ := hahead.closing_lt hstart hstop hopen rfl
    refine ⟨close, hclose, hlt, fun hequals hgreater hbrace ↦ ?_⟩
    have hequals := hahead.lt_of_isText hlt rfl hequals
    have hgreater := hahead.lt_of_isText hequals rfl hgreater
    have hlt' := hahead.lt_of_isText hgreater rfl hbrace
    obtain ⟨o, due, inner, c, rest, -, -, -, -, rfl⟩ := File.closing_eq_ok_iff.mp hclose
    exact hahead.closing_lt (by omega) hlt' hbrace rfl

/-- A file with a table of two rules. -/
def twoRules : File :=
  .ofText "token.rs"
    "macro_rules! Token \x7b [+] => \x7b $t::Plus \x7d; [-] => \x7b $Minus \x7d \x7d".toList

theorem rules_of_findTable_twoRules :
    twoRules.findTable = .ok (some (4, 26)) ∧
      rules twoRules 4 26 = .ok ⟨[("+", "Plus"), ("-", "Minus")]⟩ ∧
      ∃ rs, IsRules ((twoRules.lexemes.take 26).drop 4) rs := by
  have hfind : twoRules.findTable = .ok (some (4, 26)) := by rfl
  have hrules : rules twoRules 4 26 = .ok ⟨[("+", "Plus"), ("-", "Minus")]⟩ := by rfl
  exact ⟨hfind, hrules, (rules_of_findTable hfind).1.mp ⟨_, hrules⟩⟩

end Spelling
end NodeSchema
