import Abacus.Proofs.Calculator.Schedule
import Abacus.Proofs.Calculator.Value
import Abacus.Proofs.Expression.Alternation

/-!
# What is accepted

A text that has a value need not be an infix expression: `I II +` has the value of `I + II`
(`value_postfix`). The machine never asks whether an operand or an operator is to come next. What
it does ask for is that brackets have partners and that there is one numeral more than operators,
and that is enough to make an accepted text an infix expression as soon as no operand of it
directly follows another (`infix_iff_separate`).

`Accounts` is what the machine keeps account of while it reads: the brackets that are open, and
the operands, of which there are as many as there were numerals, less one for each operator that
was applied. A step keeps it, so a run does.
-/

namespace Abacus

open Token

/-- The position of the bracket, if the entry is one. -/
def Pending.opening? : Pending → Option Nat
  | .opening p => some p
  | .operator _ _ => none

/-- The entry is an operator. -/
def Pending.isOperator : Pending → Bool
  | .opening _ => false
  | .operator _ _ => true

/-- What a machine keeps account of when it has read the row. -/
structure Accounts (m : Machine) (read : List PlacedToken) : Prop where
  /-- The brackets that are pending are those that are open. -/
  openings : m.pending.filterMap Pending.opening? = unclosed read
  /-- Every closing bracket had a partner. -/
  unopened : unopened read = 0
  /-- An operand is left of every numeral, less one for every operator that was applied. -/
  balance : m.workings.operands.length + count isOperator read =
    count isNumeral read + m.pending.countP Pending.isOperator

theorem accounts_empty : Accounts .empty [] := ⟨rfl, rfl, rfl⟩

namespace Accounts

variable {m m' : Machine} {read : List PlacedToken}

/-- An application leaves every bracket, and takes an operand with the operator. -/
theorem apply {op : Operator} {p : Nat} {pending : List Pending} {w w' : Workings}
    (h : Accounts ⟨.operator op p :: pending, w⟩ read) (hw : w.apply op p = .ok w') :
    Accounts ⟨pending, w'⟩ read := by
  obtain ⟨left, right, rest, v, hoperands, -, rfl⟩ := Workings.apply_eq_ok_iff.1 hw
  obtain ⟨hopen, hun, hbalance⟩ := h
  refine ⟨hopen, hun, ?_⟩
  simp only [hoperands, List.length_cons, List.countP_cons, Pending.isOperator, if_true] at hbalance ⊢
  omega

theorem settle (h : Accounts m read) {due : Operator → Bool} (hm : m.settle due = .ok m') :
    Accounts m' read := by
  obtain ⟨pending, w⟩ := m
  unfold Machine.settle at hm
  induction pending generalizing w with
  | nil =>
    cases hm
    exact h
  | cons e pending ih =>
    cases e with
    | opening p =>
      cases hm
      exact h
    | operator op p =>
      simp only [Abacus.settle] at hm
      split at hm
      · split at hm
        · next w' hw => exact ih w' (h.apply hw) hm
        · cases hm
      · cases hm
        exact h

/-- A blank is of no account. -/
theorem skip (h : Accounts m read) (p : Nat) (ch : Char) :
    Accounts m (read ++ [⟨p, .blank ch⟩]) := by
  obtain ⟨hopen, hun, hbalance⟩ := h
  refine ⟨?_, ?_, ?_⟩
  · rw [unclosed_append, ← hopen]
    rfl
  · rw [unopened_snoc read (by simp), hun]
  · rw [count_snoc, count_snoc]
    exact hbalance

/-- A numeral gives an operand. -/
theorem push_numeral (h : Accounts m read) (p : Nat) (ds : List Char) (v : Int64) :
    Accounts { m with workings := m.workings.push v } (read ++ [⟨p, .numeral ds v⟩]) := by
  obtain ⟨hopen, hun, hbalance⟩ := h
  refine ⟨?_, ?_, ?_⟩
  · rw [unclosed_append, ← hopen]
    rfl
  · rw [unopened_snoc read (by simp), hun]
  · rw [count_snoc, count_snoc]
    show m.workings.operands.length + 1 + count isOperator read =
      count isNumeral read + 1 + m.pending.countP Pending.isOperator
    omega

/-- An opening bracket is open until it is closed. -/
theorem push_opening (h : Accounts m read) (p : Nat) :
    Accounts (m.push (.opening p)) (read ++ [⟨p, .opening⟩]) := by
  obtain ⟨hopen, hun, hbalance⟩ := h
  refine ⟨?_, ?_, ?_⟩
  · rw [unclosed_snoc_opening, ← hopen]
    rfl
  · rw [unopened_snoc read (by simp), hun]
  · rw [count_snoc, count_snoc]
    exact hbalance

/-- An operator costs an operand when it leaves the stack. -/
theorem push_operator (h : Accounts m read) (op : Operator) (p : Nat) :
    Accounts (m.push (.operator op p)) (read ++ [⟨p, .operator op⟩]) := by
  obtain ⟨hopen, hun, hbalance⟩ := h
  refine ⟨?_, ?_, ?_⟩
  · rw [unclosed_append, ← hopen]
    rfl
  · rw [unopened_snoc read (by simp), hun]
  · have hpush : (m.push (.operator op p)).pending.countP Pending.isOperator =
        m.pending.countP Pending.isOperator + 1 := List.countP_cons_of_pos rfl
    rw [count_snoc, count_snoc, hpush]
    show m.workings.operands.length + (count isOperator read + 1) =
      count isNumeral read + (m.pending.countP Pending.isOperator + 1)
    omega

/-- The bracket on top leaves as its partner is read. -/
theorem close (h : Accounts m read) {p : Nat} (hm : m.close p = .ok m') :
    Accounts m' (read ++ [⟨p, .closing⟩]) := by
  obtain ⟨hopen, hun, hbalance⟩ := h
  unfold Machine.close at hm
  split at hm
  · next q rest hpending =>
    cases hm
    rw [hpending] at hopen hbalance
    refine ⟨?_, ?_, ?_⟩
    · rw [unclosed_snoc_closing, ← hopen]
      rfl
    · rw [unopened_snoc_closing, ← hopen, hun]
      simp [Pending.opening?]
    · rw [count_snoc, count_snoc]
      exact hbalance
  · cases hm

/-- Taking a token keeps the accounts. -/
theorem receive (h : Accounts m read) {t : PlacedToken} (hm : m.receive t = .ok m') :
    Accounts m' (read ++ [t]) := by
  obtain ⟨p, t⟩ := t
  cases t with
  | blank ch =>
    cases hm
    exact h.skip p ch
  | numeral ds v =>
    cases hm
    exact h.push_numeral p ds v
  | opening =>
    cases hm
    exact h.push_opening p
  | operator op =>
    cases hm
    exact h.push_operator op p
  | closing => exact h.close hm

/-- A step keeps the accounts. -/
theorem step (h : Accounts m read) {t : PlacedToken} (hm : m.step t = .ok m') :
    Accounts m' (read ++ [t]) := by
  rw [Machine.step_eq] at hm
  obtain ⟨m₁, hsettle, hreceive⟩ := bind_eq_ok.1 hm
  exact (h.settle hsettle).receive hreceive

/-- A run keeps the accounts. -/
theorem steps (h : Accounts m read) {ts : List PlacedToken} (hm : m.steps ts = .ok m') :
    Accounts m' (read ++ ts) := by
  induction ts generalizing m read with
  | nil =>
    cases hm
    rwa [List.append_nil]
  | cons t ts ih =>
    obtain ⟨m₁, hstep, hsteps⟩ := bind_eq_ok.1 hm
    have hts := ih (h.step hstep) hsteps
    rwa [List.append_assoc] at hts

end Accounts

/-- A run that ends with a value has nothing pending, and one operand. -/
theorem finish_eq_ok {m m' : Machine} {v : Int64} (hm : m.finish = .ok (m', v)) :
    ∃ w, m.settle (fun _ => true) = .ok ⟨[], w⟩ ∧ w.operands = [v] := by
  obtain ⟨m₁, hsettle, hend⟩ := bind_eq_ok.1 hm
  have hhead := List.head?_dropWhile_not (Pending.isDue fun _ => true) m.pending
  rw [← pending_of_settle hsettle] at hhead
  obtain ⟨pending, operands, applied⟩ := m₁
  match pending, operands with
  | [], [u] =>
    cases hend
    exact ⟨_, hsettle, rfl⟩
  | [], [] => cases hend
  | [], _ :: _ :: _ => cases hend
  | .opening p :: pending, _ => cases hend
  -- an operator on top would have been applied
  | .operator op p :: pending, _ => cases hhead

/-- If a run ends with a value, the brackets it has read all have partners, and it has read one
numeral more than operators. -/
theorem Accounts.finish {m m' : Machine} {read : List PlacedToken} {v : Int64}
    (h : Accounts m read) (hm : m.finish = .ok (m', v)) :
    Level read ∧ count isNumeral read = count isOperator read + 1 := by
  obtain ⟨w, hsettle, hw⟩ := finish_eq_ok hm
  obtain ⟨hopen, hun, hbalance⟩ := h.settle hsettle
  refine ⟨⟨hun, hopen.symm⟩, ?_⟩
  simp only [hw, List.length_singleton, List.countP_nil] at hbalance
  omega

theorem outcome_ofEnding {r : Except Halt (Machine × Int64)} {v : Int64} :
    (Run.ofEnding r).outcome = .ok v ↔ ∃ m, r = .ok (m, v) := by
  constructor
  · intro h
    match r, h with
    | .ok (m, u), h =>
      cases h
      exact ⟨m, rfl⟩
  · rintro ⟨m, rfl⟩
    rfl

namespace Calculator

/-- A text has a value when its tokens are read to the end and the run ends with the value. -/
theorem value_eq_ok {c : Calculator} {expression : String} {v : Int64}
    (hv : (c.value expression).outcome = .ok v) :
    (c.scan expression.toList).fault? = none ∧
      ∃ m m', Machine.empty.steps
        (Token.visible (Token.place 0 (c.scan expression.toList).tokens)) = .ok m ∧
        m.finish = .ok (m', v) := by
  rw [steps_visible]
  obtain ⟨m', hending⟩ := outcome_ofEnding.1 (show (Run.ofEnding _).outcome = _ from hv)
  obtain ⟨m, hsteps, hend⟩ := bind_eq_ok.1 hending
  split at hend
  · cases hend
  · next hfault => exact ⟨hfault, m, m', hsteps, hend⟩

/-- **What is accepted.** If a text has a value, its brackets all have partners and it has one
numeral more than operators; and it is an infix expression if and only if no operand of it
directly follows another, blanks aside. -/
theorem infix_iff_separate (c : Calculator) (hc : c.numerals.Unreserved) (expression : String)
    (v : Int64) (hv : (c.value expression).outcome = .ok v) :
    ∃ ts, (∀ us fault?, c.Lexes expression.toList us fault? ↔ us = ts ∧ fault? = none) ∧
      Token.Level (Token.visible (Token.place 0 ts)) ∧
      Token.count Token.isNumeral (Token.visible (Token.place 0 ts)) =
        Token.count Token.isOperator (Token.visible (Token.place 0 ts)) + 1 ∧
      ((∃ e : Infix, e.tokens = Token.visible (Token.place 0 ts)) ↔ Token.Separate ts) := by
  obtain ⟨hfault, m, m', hsteps, hfinish⟩ := value_eq_ok hv
  obtain ⟨hlevel, hcount⟩ := (accounts_empty.steps hsteps).finish hfinish
  refine ⟨(c.scan expression.toList).tokens, fun us fault? => ?_, hlevel, hcount, ?_⟩
  · rw [← scan_eq_iff hc, ← hfault]
    constructor
    · intro h
      rw [h]
      exact ⟨rfl, rfl⟩
    · rintro ⟨rfl, rfl⟩
      rfl
  · rw [Token.separate_iff 0]
    exact exists_infix_iff (fun t ht => by simpa using (List.mem_filter.1 ht).2) hlevel hcount

/-- `I + (II)` is accepted, and since no operand of it follows another it is an infix
expression. -/
theorem infix_iff_separate_roman :
    NumeralSystem.roman.Unreserved ∧ (roman.value "I + (II)").outcome = .ok 3 ∧
      ∃ ts, roman.Lexes "I + (II)".toList ts none ∧
        ∃ e : Infix, e.tokens = Token.visible (Token.place 0 ts) := by
  have hc := NumeralSystem.roman_unreserved
  have hscan : roman.scan "I + (II)".toList =
      ⟨[.numeral ['I'] 1, .blank ' ', .operator .add, .blank ' ', .opening, .numeral ['I', 'I'] 2,
        .closing], none⟩ := by
    cbv
  have hv : (roman.value "I + (II)").outcome = .ok 3 := by
    show (roman.compute _).outcome = _
    rw [compute, hscan]
    rfl
  refine ⟨hc, hv, ?_⟩
  obtain ⟨ts, hlex, -, -, hiff⟩ := roman.infix_iff_separate hc "I + (II)" 3 hv
  refine ⟨ts, (hlex ts none).2 ⟨rfl, rfl⟩, hiff.2 ?_⟩
  rw [← ((hlex _ none).1 ((scan_eq_iff hc).1 hscan)).1]
  simp [Token.Separate, Token.isBlank, Token.endsOperand, Token.startsOperand]

/-- `I II +` has a value, and it is no infix expression. -/
theorem value_postfix :
    (roman.value "I II +").outcome = .ok 3 ∧
      ∀ ts fault?, roman.Lexes "I II +".toList ts fault? →
        ¬ ∃ e : Infix, e.tokens = Token.visible (Token.place 0 ts) := by
  have hscan : roman.scan "I II +".toList =
      ⟨[.numeral ['I'] 1, .blank ' ', .numeral ['I', 'I'] 2, .blank ' ', .operator .add], none⟩ := by
    cbv
  refine ⟨?_, fun ts fault? hlex => ?_⟩
  · show (roman.compute _).outcome = _
    rw [compute, hscan]
    rfl
  · rw [scan_of_lexes NumeralSystem.roman_unreserved hlex] at hscan
    cases hscan
    rintro ⟨e, he⟩
    have hchain := e.isChain_tokens
    rw [he, ← Token.separate_iff] at hchain
    simp [Token.Separate, Token.isBlank, Token.endsOperand, Token.startsOperand] at hchain

end Calculator

end Abacus
