import Abacus.Proofs.Calculator.Lexing
import Abacus.Proofs.Expression.Infix
import Abacus.Proofs.Expression.Nesting

/-!
# Rows that are infix expressions

A row of tokens is an infix expression if operands and operators alternate in it, brackets
aside, and its brackets are nested (`exists_infix_of_wanting`). In an infix expression no operand
follows another (`Infix.isChain_tokens`). Whether a row in which none does alternates can be told
by counting: it has at most one numeral more than operators, and if it has one more it alternates
(`count_le`).
-/

namespace Abacus

/-! ### No operand follows another -/

/-- No operand starts with the second token right where one ends with the first. -/
def PlacedToken.Parted (t u : PlacedToken) : Prop :=
  ¬ (t.token.endsOperand = true ∧ u.token.startsOperand = true)

theorem Token.separate_iff (start : Nat) (ts : List Token) :
    Token.Separate ts ↔ (Token.visible (Token.place start ts)).IsChain PlacedToken.Parted := by
  rw [Token.Separate, ← Token.map_token_visible_place start ts, List.isChain_map]
  rfl

mutual

theorem Operand.isChain_tokens : ∀ o : Operand, o.tokens.IsChain PlacedToken.Parted
  | .numeral p ds v => .singleton _
  | .group p e q => by
    rw [Operand.tokens, List.isChain_cons, List.isChain_append]
    refine ⟨fun t _ h => absurd h.1 Bool.false_ne_true, e.isChain_tokens, .singleton _, ?_⟩
    intro t _ u hu h
    obtain rfl : _ = u := by simpa using hu
    exact absurd h.2 Bool.false_ne_true

theorem Infix.isChain_tokens : ∀ e : Infix, e.tokens.IsChain PlacedToken.Parted
  | .operand o => o.isChain_tokens
  | .link o op p e => by
    rw [Infix.tokens, List.isChain_append, List.isChain_cons]
    refine ⟨o.isChain_tokens, ⟨fun t _ h => absurd h.1 Bool.false_ne_true, e.isChain_tokens⟩, ?_⟩
    intro t _ u hu h
    obtain rfl : _ = u := by simpa using hu
    exact absurd h.2 Bool.false_ne_true

end

/-! ### Kinds of tokens -/

namespace Token

/-- The token is a numeral. -/
def isNumeral : Token → Bool
  | numeral _ _ => true
  | _ => false

/-- The token is an operator. -/
def isOperator : Token → Bool
  | operator _ => true
  | _ => false

/-- The number of tokens of a kind in the row. -/
def count (kind : Token → Bool) (ts : List PlacedToken) : Nat := ts.countP (kind ·.token)

theorem count_cons (kind : Token → Bool) (t : PlacedToken) (ts : List PlacedToken) :
    count kind (t :: ts) = count kind ts + if kind t.token = true then 1 else 0 :=
  List.countP_cons

theorem count_snoc (kind : Token → Bool) (ts : List PlacedToken) (t : PlacedToken) :
    count kind (ts ++ [t]) = count kind ts + if kind t.token = true then 1 else 0 := by
  simp [count, List.countP_append, List.countP_cons]

end Token

open Token

mutual

/-- `Wanting ts`: the row begins with an operand, and from there on operands and operators
alternate up to an operand. -/
inductive Wanting : List PlacedToken → Prop where
  /-- The operand is a numeral. -/
  | numeral (p : Nat) (ds : List Char) (v : Int64) {ts : List PlacedToken} :
      Having ts → Wanting (⟨p, .numeral ds v⟩ :: ts)
  /-- The operand is a group. -/
  | opening (p : Nat) {ts : List PlacedToken} : Wanting ts → Wanting (⟨p, .opening⟩ :: ts)

/-- `Having ts`: the row goes on after an operand, and operators and operands alternate up to an
operand. -/
inductive Having : List PlacedToken → Prop where
  /-- That was all. -/
  | nil : Having []
  /-- The operand is the last of its group. -/
  | closing (p : Nat) {ts : List PlacedToken} : Having ts → Having (⟨p, .closing⟩ :: ts)
  /-- An operator and another operand come. -/
  | operator (p : Nat) (op : Operator) {ts : List PlacedToken} :
      Wanting ts → Having (⟨p, .operator op⟩ :: ts)

end

/-! ### Expressions from rows that alternate -/

mutual

theorem Operand.level_tokens : ∀ o : Operand, Level o.tokens
  | .numeral p ds v => level_nil
  | .group p e q => by
    obtain ⟨ho, hc⟩ := e.level_tokens
    simp [Operand.tokens, Level, unopened, unclosed, unopened_snoc_closing, unclosed_snoc_closing,
      ho, hc]

theorem Infix.level_tokens : ∀ e : Infix, Level e.tokens
  | .operand o => o.level_tokens
  | .link o op p e => by
    obtain ⟨ho, hc⟩ := o.level_tokens
    obtain ⟨ho', hc'⟩ := e.level_tokens
    simp [Infix.tokens, Level, unopened_append, unclosed_append, unopened, unclosed, ho, hc, ho', hc']

end

/-- The row begins with an expression that goes on to the end of the row or of its group. -/
def Begins (ts : List PlacedToken) : Prop :=
  ∃ (e : Infix) (rest : List PlacedToken), ts = e.tokens ++ rest ∧
    (rest = [] ∨ ∃ q rest', rest = ⟨q, .closing⟩ :: rest' ∧ Having rest')

mutual

/-- A row that begins with an operand and closes what it opens begins with an expression. -/
theorem Wanting.begins {ts : List PlacedToken} (h : Wanting ts) (hc : unclosed ts = []) :
    Begins ts := by
  match ts, h with
  | _, .numeral p ds v h => exact h.begins (.numeral p ds v) hc
  | _, @Wanting.opening p ts h =>
    have hts : unclosed ts = [] := unclosed_of_append [⟨p, .opening⟩] hc
    have hopen : unopened ts ≠ 0 := by
      intro h0
      simp [unclosed, h0] at hc
    obtain ⟨e, rest, rfl, rfl | ⟨q, rest, rfl, hrest⟩⟩ := h.begins hts
    · -- the bracket that closes the group would be missing
      rw [List.append_nil] at hopen
      exact absurd e.level_tokens.1 hopen
    · have hc' : unclosed rest = [] :=
        unclosed_of_append (e.tokens ++ [⟨q, .closing⟩]) (by simpa using hts)
      have hbegins := hrest.begins (.group p e q) hc'
      simpa [Operand.tokens] using hbegins
termination_by ts.length

/-- If an operand stands before the rest of a row, an expression begins with it. -/
theorem Having.begins {ts : List PlacedToken} (h : Having ts) (o : Operand)
    (hc : unclosed ts = []) : Begins (o.tokens ++ ts) := by
  match ts, h with
  | _, .nil => exact ⟨.operand o, [], rfl, .inl rfl⟩
  | _, .closing p h => exact ⟨.operand o, _, rfl, .inr ⟨p, _, rfl, h⟩⟩
  | _, .operator p op h =>
    obtain ⟨e, rest, rfl, hrest⟩ := h.begins hc
    refine ⟨.link o op p e, rest, ?_, hrest⟩
    rw [Infix.tokens, List.append_assoc, List.cons_append]
termination_by ts.length

end

/-- A row that alternates and whose brackets all have partners is an expression. -/
theorem exists_infix_of_wanting {ts : List PlacedToken} (h : Wanting ts) (hlevel : Level ts) :
    ∃ e : Infix, e.tokens = ts := by
  obtain ⟨e, rest, rfl, rfl | ⟨q, rest, rfl, -⟩⟩ := h.begins hlevel.2
  · exact ⟨e, (List.append_nil _).symm⟩
  · obtain ⟨ho, -⟩ := hlevel
    rw [unopened_append, e.level_tokens.2] at ho
    simp [unopened] at ho

/-! ### Counting -/

/-- No operand starts the row. -/
def StartsNone (ts : List PlacedToken) : Prop := ∀ t ∈ ts.head?, t.token.startsOperand = false

/-- A row in which no operand follows another has at most one numeral more than operators, and
none more if it does not start with an operand. Where it has as many as it can, it alternates. -/
theorem count_le {ts : List PlacedToken} (hchain : ts.IsChain PlacedToken.Parted)
    (hvisible : ∀ t ∈ ts, t.token.isBlank = false) :
    (count isNumeral ts ≤ count isOperator ts + 1 ∧
        (count isNumeral ts = count isOperator ts + 1 → Wanting ts)) ∧
      (StartsNone ts →
        count isNumeral ts ≤ count isOperator ts ∧
          (count isNumeral ts = count isOperator ts → Having ts)) := by
  induction ts with
  | nil => exact ⟨by simp [count], fun _ => ⟨Nat.le_refl _, fun _ => .nil⟩⟩
  | cons t ts ih =>
    obtain ⟨hhead, htail⟩ := List.isChain_cons.1 hchain
    obtain ⟨ihwant, ihhave⟩ := ih htail fun u hu => hvisible u (List.mem_cons_of_mem t hu)
    obtain ⟨p, t⟩ := t
    have hafter (ht : t.endsOperand = true) : StartsNone ts := by
      intro u hu
      simpa [PlacedToken.Parted, ht] using hhead u hu
    have hstart (h : StartsNone (⟨p, t⟩ :: ts)) : t.startsOperand = false := h _ rfl
    cases t with
    | blank ch => exact absurd (hvisible _ List.mem_cons_self) Bool.false_ne_true.symm
    | numeral ds v =>
      obtain ⟨hle, hhave⟩ := ihhave (hafter rfl)
      simp only [count_cons, isNumeral, isOperator, Bool.false_eq_true, if_true, if_false]
      refine ⟨⟨by omega, fun h => .numeral p ds v (hhave (by omega))⟩, fun h => ?_⟩
      exact absurd (hstart h) Bool.false_ne_true.symm
    | opening =>
      obtain ⟨hle, hwant⟩ := ihwant
      refine ⟨⟨hle, fun h => .opening p (hwant h)⟩, fun h => ?_⟩
      exact absurd (hstart h) Bool.false_ne_true.symm
    | closing =>
      obtain ⟨hle, hhave⟩ := ihhave (hafter rfl)
      simp only [count_cons, isNumeral, isOperator, Bool.false_eq_true, if_false]
      exact ⟨⟨by omega, fun h => by omega⟩, fun _ => ⟨hle, fun h => .closing p (hhave h)⟩⟩
    | operator op =>
      obtain ⟨hle, hwant⟩ := ihwant
      simp only [count_cons, isNumeral, isOperator, Bool.false_eq_true, if_true, if_false]
      refine ⟨⟨by omega, fun h => by omega⟩, fun _ => ⟨by omega, fun h => ?_⟩⟩
      exact .operator p op (hwant (by omega))

/-- Where brackets have partners and there is one numeral more than operators, an expression is
a row in which no operand follows another. -/
theorem exists_infix_iff {ts : List PlacedToken} (hvisible : ∀ t ∈ ts, t.token.isBlank = false)
    (hlevel : Level ts) (hcount : count isNumeral ts = count isOperator ts + 1) :
    (∃ e : Infix, e.tokens = ts) ↔ ts.IsChain PlacedToken.Parted := by
  constructor
  · rintro ⟨e, rfl⟩
    exact e.isChain_tokens
  · intro hchain
    exact exists_infix_of_wanting ((count_le hchain hvisible).1.2 hcount) hlevel

end Abacus
