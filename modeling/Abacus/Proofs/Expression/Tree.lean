import Abacus.Expression.Machine

/-!
# Trees of applications

What a machine has computed is a row of trees: a numeral is a leaf, and an operator that was
applied is a node over the trees of its two operands. A tree tells which numerals it was made
from (`leaves`), which operators were applied for it (`nodes`), and what was applied in which
order (`applications`, the operands of an operator before the operator).
-/

namespace Abacus

/-- A tree of applications. -/
inductive Tree where
  /-- A numeral at its position. -/
  | numeral (position : Nat) (digits : List Char) (value : Int64)
  /-- An operator at its position, applied to two operands with this value. -/
  | node (left : Tree) (op : Operator) (position : Nat) (value : Int64) (right : Tree)

namespace Tree

/-- The value at the root. -/
def value : Tree → Int64
  | numeral _ _ v => v
  | node _ _ _ v _ => v

/-- Every node has the value that its operator has for the values of its operands, the left one
first. -/
def Sound : Tree → Prop
  | numeral _ _ _ => True
  | node l op _ v r => l.Sound ∧ r.Sound ∧ op.apply l.value r.value = some v

/-- The numerals, from the left to the right. -/
def leaves : Tree → List PlacedToken
  | numeral p ds v => [⟨p, .numeral ds v⟩]
  | node l _ _ _ r => l.leaves ++ r.leaves

/-- The operators, each after those of its operands. -/
def nodes : Tree → List PlacedToken
  | numeral _ _ _ => []
  | node l op p _ r => l.nodes ++ (r.nodes ++ [⟨p, .operator op⟩])

/-- The applications, each after those of its operands. -/
def applications : Tree → List Application
  | numeral _ _ _ => []
  | node l op p v r =>
    l.applications ++ (r.applications ++ [⟨op.symbol, p, l.value, r.value, v⟩])

/-- A tree has one numeral more than operators. -/
theorem length_leaves (t : Tree) : t.leaves.length = t.nodes.length + 1 := by
  induction t with
  | numeral p ds v => rfl
  | node l op p v r ihl ihr =>
    simp only [leaves, nodes, List.length_append, List.length_singleton, ihl, ihr]
    omega

/-- An operator is applied once for each node. -/
theorem length_applications (t : Tree) : t.applications.length = t.nodes.length := by
  induction t with
  | numeral p ds v => rfl
  | node l op p v r ihl ihr =>
    simp only [applications, nodes, List.length_append, List.length_singleton, ihl, ihr]

/-- What was applied are the nodes. -/
theorem map_position_applications (t : Tree) :
    t.applications.map Application.position = t.nodes.map PlacedToken.position := by
  induction t with
  | numeral p ds v => rfl
  | node l op p v r ihl ihr =>
    simp only [applications, nodes, List.map_append, ihl, ihr, List.map_cons, List.map_nil]

/-- The value is that of the last application, or of the only numeral. -/
theorem value_eq (t : Tree) :
    (∃ a, t.applications.getLast? = some a ∧ a.result = t.value) ∨
      t.applications = [] ∧ ∃ p ds, t.leaves = [⟨p, .numeral ds t.value⟩] := by
  cases t with
  | numeral p ds v => exact .inr ⟨rfl, p, ds, rfl⟩
  | node l op p v r =>
    refine .inl ⟨⟨op.symbol, p, l.value, r.value, v⟩, ?_, rfl⟩
    rw [applications, ← List.append_assoc, List.getLast?_concat]

end Tree

end Abacus
