import Abacus.Proofs.Calculator.Acceptance
import Abacus.Proofs.Calculator.Course
import Abacus.Proofs.Calculator.Diagnostics
import Abacus.Proofs.Expression.Brackets

/-!
# Matching brackets

A calculator finds the brackets of a text that have no partner, and reports the right one
(`Calculator.value_brackets`). If it gets to the end of a text and counts the operands that are
left, the brackets of the text are balanced. If it reports a closing bracket, that is the first
with which the text has one too many; if it reports an opening bracket, that is the last one that
is never closed, and no closing bracket of the text is without a partner.

Nothing has to be said of the operators that wait between the brackets: at every point of a run
the brackets that wait are those that the tokens read so far leave open, and no closing bracket
was without a partner so far (`Accounts.reaches`). Where the run ends, this is what it is about.
-/

namespace Abacus

/-- No bracket is a character numerals are written with. -/
structure NumeralSystem.Bracketless (n : NumeralSystem) : Prop where
  /-- The opening bracket is none. -/
  opening : n.isDigit openingBracket = false
  /-- The closing bracket is none. -/
  closing : n.isDigit closingBracket = false

namespace Text

/-- Every closing bracket of the text has its partner. -/
def AllOpened (cs : List Char) : Prop :=
  ∀ before after, cs = before ++ closingBracket :: after → Opens before

/-- A closing bracket stands at the position, and it is the first one with which the text has more
closing brackets than opening ones. -/
def FirstUnopened (cs : List Char) (p : Nat) : Prop :=
  ∃ before after, cs = before ++ closingBracket :: after ∧ width before = p ∧ Covered before ∧
    openings (before ++ [closingBracket]) < closings (before ++ [closingBracket])

/-- An opening bracket stands at the position, it has no partner, and every opening bracket after
it has one. -/
def LastUnclosed (cs : List Char) (p : Nat) : Prop :=
  ∃ before after, cs = before ++ openingBracket :: after ∧ width before = p ∧ ¬ Closes after ∧
    ∀ before' after', after = before' ++ openingBracket :: after' → Closes after'

/-- A closing bracket after a balanced text is one too many. -/
theorem Balanced.firstUnopened {before after : List Char} (h : Balanced before) :
    FirstUnopened (before ++ closingBracket :: after) (width before) := by
  refine ⟨before, after, rfl, rfl, h.covered, ?_⟩
  rw [openings_append, closings_append, h.closings_eq]
  exact Nat.lt_succ_self _

/-- An opening bracket before a balanced text that is all there is left has no partner. -/
theorem Balanced.lastUnclosed {before after : List Char} (h : Balanced after) :
    LastUnclosed (before ++ openingBracket :: after) (width before) := by
  refine ⟨before, after, rfl, rfl, fun hcloses => closes_iff.1 hcloses h.covered, ?_⟩
  rintro before' after' rfl
  exact h.closes

end Text

/-! ### The brackets of a run -/

namespace Accounts

/-- A step of a run keeps the accounts. -/
theorem next {a b : Point} (h : Accounts a.machine a.read) (hstep : a.Next b) :
    Accounts b.machine b.read := by
  cases hstep with
  | apply hp _ hw =>
    have ha : a.machine = ⟨_, a.machine.workings⟩ := congrArg (Machine.mk · _) hp
    rw [ha] at h
    exact h.apply hw
  | take _ _ hm => exact h.receive hm

/-- At every point of a run the accounts are kept. -/
theorem reaches {a b : Point} (h : Accounts a.machine a.read) (hrun : a.Reaches b) :
    Accounts b.machine b.read := by
  induction hrun with
  | refl => exact h
  | tail _ hstep ih => exact ih.next hstep

/-- If nothing waits, every bracket that was read has its partner. -/
theorem level {m : Machine} {read : List PlacedToken} (h : Accounts m read) (hp : m.pending = []) :
    Token.Level read := by
  refine ⟨h.unopened, ?_⟩
  rw [← h.openings, hp]
  rfl

end Accounts

namespace Calculator

variable {c : Calculator} {cs : List Char}

/-- Where no bracket is a digit, the brackets of a text that is read are tokens of their own. -/
theorem plain_of_mem_scan (hc : c.numerals.Bracketless) {t : Token}
    (h : t ∈ (c.scan cs).tokens) : t.Plain := by
  have hunreserved {ch : Char} (hch : isReserved ch = false) :
      openingBracket ∉ [ch] ∧ closingBracket ∉ [ch] := by
    obtain ⟨-, ho, hcl⟩ := (not_isReserved_iff ch).1 hch
    exact ⟨fun hmem => ho (List.mem_singleton.1 hmem).symm,
      fun hmem => hcl (List.mem_singleton.1 hmem).symm⟩
  have hadmits := admits_of_mem_scan h
  intro hbracket
  cases t with
  | blank ch =>
    have hblank : Text.isBlank ch = true := hadmits
    constructor
    · intro hmem
      rw [← List.mem_singleton.1 hmem] at hblank
      exact absurd hblank (by decide)
    · intro hmem
      rw [← List.mem_singleton.1 hmem] at hblank
      exact absurd hblank (by decide)
  | operator op => exact hunreserved (c.operators.unreserved op hadmits)
  | numeral ds v =>
    obtain ⟨⟨-, hds⟩, -⟩ := hadmits
    exact ⟨fun hmem => by simpa [hc.opening] using hds _ hmem,
      fun hmem => by simpa [hc.closing] using hds _ hmem⟩
  | opening | closing => cases hbracket

/-- Where a run has read all tokens and comes to no fault, it has read the text. -/
theorem read_of_coming {q : Point} (h : (c.start cs).Reaches q) (hcoming : q.coming = [])
    (hfault : q.fault? = none) :
    q.read = Token.place 0 (c.scan cs).tokens ∧ Token.textOf (c.scan cs).tokens = cs := by
  have hread : q.read ++ q.coming = (c.start cs).coming := h.read_append_coming
  rw [hcoming, List.append_nil] at hread
  rw [h.fault?_eq] at hfault
  exact ⟨hread, textOf_scan (Option.map_eq_none_iff.1 hfault)⟩

/-- If a run comes to the end of the text and nothing waits there, the text is balanced. -/
theorem balanced_of_end (hc : c.numerals.Bracketless) {q : Point} (h : (c.start cs).Reaches q)
    (hcoming : q.coming = []) (hfault : q.fault? = none) (hp : q.machine.pending = []) :
    Text.Balanced cs := by
  have hlevel := (accounts_empty.reaches h).level hp
  obtain ⟨hread, htext⟩ := read_of_coming h hcoming hfault
  rw [hread, Token.level_place_iff 0 fun t ht => plain_of_mem_scan hc ht, htext] at hlevel
  exact hlevel

/-- If a closing bracket comes and nothing waits, it is the first that is one too many. -/
theorem firstUnopened_of_coming (hc : c.numerals.Bracketless) {q : Point}
    (h : (c.start cs).Reaches q) {p : Nat} {ts : List PlacedToken}
    (hcoming : q.coming = ⟨p, .closing⟩ :: ts) (hp : q.machine.pending = []) :
    Text.FirstUnopened cs p := by
  have hlevel := (accounts_empty.reaches h).level hp
  have hread : q.read ++ q.coming = Token.place 0 (c.scan cs).tokens := h.read_append_coming
  rw [hcoming] at hread
  obtain ⟨before, after, hts, hbefore, rfl, -⟩ := Token.place_eq_append_cons hread.symm
  obtain ⟨rest, htext, -⟩ := c.scan_eq cs
  rw [hbefore, Token.level_place_iff 0 fun t ht =>
    plain_of_mem_scan hc (hts ▸ List.mem_append_left _ ht)] at hlevel
  rw [← htext, hts, Token.textOf_append, Token.textOf_cons, List.append_assoc, Nat.zero_add]
  exact hlevel.firstUnopened

/-- If a bracket is on top at the end of the text, it is the last that is never closed, and every
closing bracket has its partner. -/
theorem lastUnclosed_of_end (hc : c.numerals.Bracketless) {q : Point}
    (h : (c.start cs).Reaches q) (hcoming : q.coming = []) (hfault : q.fault? = none) {p : Nat}
    {pending : List Pending} (hp : q.machine.pending = .opening p :: pending) :
    Text.AllOpened cs ∧ Text.LastUnclosed cs p := by
  have haccounts := accounts_empty.reaches h
  obtain ⟨hread, htext⟩ := read_of_coming h hcoming hfault
  have hplain : ∀ t ∈ (c.scan cs).tokens, t.Plain := fun t ht => plain_of_mem_scan hc ht
  constructor
  · rintro before after rfl
    have hcovered := (Token.nesting_place 0 hplain).2.1 (hread ▸ haccounts.unopened)
    rw [htext] at hcovered
    exact hcovered.opens
  · have hopen := haccounts.openings
    rw [hp] at hopen
    obtain ⟨xs, ys, hxs, hlevel⟩ := Token.exists_level_of_unclosed hopen.symm
    obtain ⟨before, after, hts, -, hposition, rfl⟩ :=
      Token.place_eq_append_cons (hread.symm.trans hxs)
    rw [Token.level_place_iff _ fun t ht =>
      hplain t (hts ▸ List.mem_append_right _ (List.mem_cons_of_mem _ ht))] at hlevel
    obtain rfl : p = Text.width (Token.textOf before) := hposition.trans (Nat.zero_add _)
    rw [← htext, hts, Token.textOf_append, Token.textOf_cons]
    exact hlevel.lastUnclosed

/-- **Matching brackets.** If a text has a value, or is left with not one operand, its brackets are
balanced. If a bracket is reported, it is either the first closing bracket that is one too many, or
the last opening bracket that is never closed, and then every closing bracket has its partner. -/
theorem value_brackets (c : Calculator) (hc : c.numerals.Bracketless) (expression : String) :
    let cs := expression.toList
    let outcome := (c.value expression).outcome
    (∀ v, outcome = .ok v → Text.Balanced cs) ∧
      (∀ n, outcome = .error (.notOneValue n) → Text.Balanced cs) ∧
      ∀ p, outcome = .error (.unbalancedBracket p) →
        Text.FirstUnopened cs p ∨ Text.AllOpened cs ∧ Text.LastUnclosed cs p := by
  intro cs outcome
  obtain ⟨q, hq, hlast⟩ := (c.start cs).exists_last
  have hends : q.Ends outcome := (ends_of_last hq hlast).1
  refine ⟨fun v hv => ?_, fun n hn => ?_, fun p hp => ?_⟩
  · rw [hv] at hends
    cases hends with
    | value hcoming hfault hpending _ => exact balanced_of_end hc hq hcoming hfault hpending
  · rw [hn] at hends
    cases hends with
    | count hcoming hfault hpending _ => exact balanced_of_end hc hq hcoming hfault hpending
    | application _ _ hw => cases Workings.isOperational_of_apply hw
    | fault _ hfault => cases isLexical_of_reaches hq hfault
  · rw [hp] at hends
    cases hends with
    | closing hcoming hpending => exact .inl (firstUnopened_of_coming hc hq hcoming hpending)
    | opening hcoming hfault hpending =>
      exact .inr (lastUnclosed_of_end hc hq hcoming hfault hpending)
    | application _ _ hw => cases Workings.isOperational_of_apply hw
    | fault _ hfault => cases isLexical_of_reaches hq hfault

/-- In `((I) + (II)` the first bracket is reported and not the last one: that has a partner. -/
theorem value_brackets_roman :
    NumeralSystem.roman.Bracketless ∧
      (roman.value "((I) + (II)").outcome = .error (.unbalancedBracket 0) ∧
      Text.AllOpened "((I) + (II)".toList ∧ Text.LastUnclosed "((I) + (II)".toList 0 ∧
      (roman.value "((I) + (II))").outcome = .ok 3 ∧ Text.Balanced "((I) + (II))".toList := by
  have hc : NumeralSystem.roman.Bracketless := ⟨rfl, rfl⟩
  have hscan : roman.scan "((I) + (II)".toList =
      ⟨[.opening, .opening, .numeral ['I'] 1, .closing, .blank ' ', .operator .add, .blank ' ',
        .opening, .numeral ['I', 'I'] 2, .closing], none⟩ := by
    cbv
  have hscan' : roman.scan "((I) + (II))".toList =
      ⟨[.opening, .opening, .numeral ['I'] 1, .closing, .blank ' ', .operator .add, .blank ' ',
        .opening, .numeral ['I', 'I'] 2, .closing, .closing], none⟩ := by
    cbv
  have hv : (roman.value "((I) + (II)").outcome = .error (.unbalancedBracket 0) :=
    outcome_of_scan hscan
  have hv' : (roman.value "((I) + (II))").outcome = .ok 3 := outcome_of_scan hscan'
  obtain ⟨-, -, hbracket⟩ := roman.value_brackets hc "((I) + (II)"
  obtain ⟨hbalanced, -, -⟩ := roman.value_brackets hc "((I) + (II))"
  rcases hbracket 0 hv with ⟨before, after, htext, hwidth, -⟩ | ⟨hall, hlast⟩
  · -- no closing bracket stands at the start of the text
    cases before with
    | nil => cases htext
    | cons ch before => exact absurd hwidth (Nat.ne_of_gt (Text.width_pos (List.cons_ne_nil _ _)))
  · exact ⟨hc, hv, hall, hlast, hv', hbalanced 3 hv'⟩

end Calculator

end Abacus
