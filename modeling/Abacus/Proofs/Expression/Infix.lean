import Abacus.Expression.Error
import Abacus.Expression.Token

/-!
# Infix expressions

The grammar of expressions, with the value it gives them:

    E ::= O | O op E
    O ::= numeral | ( E )

`Infix` and `Operand` are the derivations of the grammar, `tokens` is the row of tokens a
derivation derives. The value is that of arithmetic and knows of no stack: an expression is
parted at the rightmost of its operators of least precedence (`Infix.part`), the left part has a
value, then the right part, and then the operator is applied (`Infix.value`). What goes wrong
first in this order is what the expression fails with.
-/

namespace Abacus

mutual

/-- An operand: a numeral, or an expression in brackets. -/
inductive Operand where
  /-- A numeral at its position. -/
  | numeral (position : Nat) (digits : List Char) (value : Int64)
  /-- An expression between brackets at their positions. -/
  | group (opening : Nat) (inner : Infix) (closing : Nat)

/-- An expression: operands with operators between them. -/
inductive Infix where
  /-- An operand alone. -/
  | operand (o : Operand)
  /-- An operand, an operator at its position, and the rest of the expression. -/
  | link (o : Operand) (op : Operator) (position : Nat) (rest : Infix)

end

/-- An operator that has no value for its operands. -/
structure Misfit where
  /-- The operator. -/
  op : Operator
  /-- The left operand. -/
  left : Int64
  /-- The right operand. -/
  right : Int64
  /-- The position of the operator. -/
  position : Nat

/-- The misfit as it is reported. -/
def Misfit.error (f : Misfit) : EvaluationError :=
  .overflow f.op.symbol f.left f.right f.position

/-- The value of an operator at a position for two operands. -/
def Operator.applyAt (op : Operator) (position : Nat) (left right : Int64) : Except Misfit Int64 :=
  match op.apply left right with
  | some value => .ok value
  | none => .error ⟨op, left, right, position⟩

/-! ### Tokens -/

mutual

/-- The tokens of an operand. -/
def Operand.tokens : Operand → List PlacedToken
  | .numeral p ds v => [⟨p, .numeral ds v⟩]
  | .group p e q => ⟨p, .opening⟩ :: (e.tokens ++ [⟨q, .closing⟩])

/-- The tokens of an expression. -/
def Infix.tokens : Infix → List PlacedToken
  | .operand o => o.tokens
  | .link o op p e => o.tokens ++ ⟨p, .operator op⟩ :: e.tokens

end

namespace Infix

/-- The operators between the operands of the expression, those inside of operands aside. -/
def operators : Infix → List Operator
  | operand _ => []
  | link _ op _ e => op :: e.operators

/-! ### Parting an expression -/

/-- An expression parted at one of its operators. -/
structure Parts where
  /-- What stands left of the operator. -/
  left : Infix
  /-- The operator. -/
  op : Operator
  /-- The position of the operator. -/
  position : Nat
  /-- What stands right of the operator. -/
  right : Infix

/-- Parts an expression with operators, given as the first operand, the first operator and the
rest, at the rightmost of its operators of least precedence. -/
def part (o : Operand) (op : Operator) (p : Nat) : Infix → Parts
  | operand o' => ⟨operand o, op, p, operand o'⟩
  | link o' op' p' e =>
    let s := part o' op' p' e
    if s.op.precedence ≤ op.precedence then { s with left := link o op p s.left }
    else ⟨operand o, op, p, link o' op' p' e⟩

/-- The parts are the expression. -/
theorem tokens_part (o : Operand) (op : Operator) (p : Nat) : ∀ e : Infix,
    (part o op p e).left.tokens ++
      ⟨(part o op p e).position, .operator (part o op p e).op⟩ :: (part o op p e).right.tokens =
    (link o op p e).tokens
  | operand o' => rfl
  | link o' op' p' e => by
    have ih := tokens_part o' op' p' e
    unfold part
    simp only
    split
    · simp only [tokens, List.append_assoc, List.cons_append, ih]
    · rfl

/-- An expression is parted at its rightmost operator of least precedence: no operator to the
left has less, and every operator to the right has more. -/
theorem operators_part (o : Operand) (op : Operator) (p : Nat) : ∀ e : Infix,
    (part o op p e).left.operators ++ (part o op p e).op :: (part o op p e).right.operators =
      (link o op p e).operators ∧
    (∀ q ∈ (part o op p e).left.operators, (part o op p e).op.precedence ≤ q.precedence) ∧
    (∀ q ∈ (part o op p e).right.operators, (part o op p e).op.precedence < q.precedence)
  | operand o' => by simp [part, operators]
  | link o' op' p' e => by
    obtain ⟨happ, hleft, hright⟩ := operators_part o' op' p' e
    unfold part
    simp only
    split
    · next hle =>
      refine ⟨by simp only [operators, List.cons_append, happ], ?_, hright⟩
      intro q hq
      rcases List.mem_cons.1 hq with rfl | hq
      · exact hle
      · exact hleft q hq
    · next hlt =>
      refine ⟨rfl, fun q hq => absurd hq List.not_mem_nil, ?_⟩
      show ∀ q ∈ (link o' op' p' e).operators, op.precedence < q.precedence
      rw [← happ]
      intro q hq
      rcases List.mem_append.1 hq with hq | hq
      · have := hleft q hq
        omega
      rcases List.mem_cons.1 hq with rfl | hq
      · omega
      · have := hright q hq
        omega

theorem sizeOf_part (o : Operand) (op : Operator) (p : Nat) : ∀ e : Infix,
    sizeOf (part o op p e).left < sizeOf (link o op p e) ∧
      sizeOf (part o op p e).right < sizeOf (link o op p e)
  | operand o' => by simp [part]; omega
  | link o' op' p' e => by
    have ih := sizeOf_part o' op' p' e
    unfold part
    simp only
    split
    · simp only [link.sizeOf_spec] at ih ⊢
      omega
    · simp only [link.sizeOf_spec, operand.sizeOf_spec]
      omega

end Infix

/-! ### Values -/

mutual

/-- The value of an operand. -/
def Operand.value : Operand → Except Misfit Int64
  | .numeral _ _ v => .ok v
  | .group _ e _ => e.value
termination_by o => sizeOf o

/-- The value of an expression. -/
def Infix.value : Infix → Except Misfit Int64
  | .operand o => o.value
  | .link o op p e =>
    let s := Infix.part o op p e
    s.left.value.bind fun left => s.right.value.bind fun right => s.op.applyAt s.position left right
termination_by e => sizeOf e
decreasing_by
  · simp
  · exact (Infix.sizeOf_part o op p e).1
  · exact (Infix.sizeOf_part o op p e).2

end

end Abacus
