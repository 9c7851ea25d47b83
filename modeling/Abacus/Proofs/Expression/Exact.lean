import Abacus.Operator.Table
import Abacus.Proofs.Expression.Tree
import Mathlib.Algebra.Order.Ring.Int

/-!
# Exact values

The standard operators are those of the integers, as far as results fit in 64 bits
(`Operator.apply_eq_fit?`). So what a tree of standard operators is worth is what the integers
say, and from the size of its numerals follows how large that can be
(`Tree.exact_of_within`): a tree over `k` numerals of at most `b` is worth at most `b ^ k`. Sums
keep to this bound as well as products, because two numbers that are at least two have no larger
sum than product.
-/

namespace Abacus

/-- What the standard operator with the symbol gives for two integers of any size. -/
def Arithmetic.exactValue? (symbol : Char) (a b : Int) : Option Int :=
  match symbol with
  | '+' => some (a + b)
  | '-' => some (a - b)
  | '*' => some (a * b)
  | _ => none

open Arithmetic

/-- A standard operator gives the exact result if that fits in 64 bits, and nothing otherwise. -/
theorem Operator.apply_eq_fit? {op : Operator} (h : op ∈ OperatorTable.standard.toList)
    (left right : Int64) :
    ∃ n, exactValue? op.symbol left.toInt right.toInt = some n ∧ op.apply left right = fit? n := by
  have hop : op = .add ∨ op = .sub ∨ op = .mul := by simpa [OperatorTable.standard] using h
  rcases hop with rfl | rfl | rfl
  · exact ⟨_, rfl, rfl⟩
  · exact ⟨_, rfl, rfl⟩
  · exact ⟨_, rfl, rfl⟩

/-- A result is no larger than the product of what its operands are no larger than, if that is
at least two. -/
theorem Arithmetic.natAbs_le_mul {o : Char} {a b n : Int} {x y : Nat} (h : exactValue? o a b = some n)
    (ha : a.natAbs ≤ x) (hb : b.natAbs ≤ y) (hx : 2 ≤ x) (hy : 2 ≤ y) : n.natAbs ≤ x * y := by
  have hsum : a.natAbs + b.natAbs ≤ x * y := calc
    a.natAbs + b.natAbs ≤ x + y := Nat.add_le_add ha hb
    _ ≤ x * y := Nat.add_le_mul hx hy
  unfold exactValue? at h
  split at h
  · cases h
    exact Nat.le_trans (Int.natAbs_add_le a b) hsum
  · cases h
    exact Nat.le_trans (Int.natAbs_sub_le a b) hsum
  · cases h
    rw [Int.natAbs_mul]
    exact Nat.mul_le_mul ha hb
  · cases h

namespace Tree

/-- What the tree is worth if its operators are applied to integers of any size. -/
def exactValue? : Tree → Option Int
  | numeral _ _ v => some v.toInt
  | node l op _ _ r => l.exactValue?.bind fun a => r.exactValue?.bind fun b => Arithmetic.exactValue? op.symbol a b

/-- The numerals of the tree are worth at most the bound, and its operators are standard ones. -/
structure Within (bound : Nat) (t : Tree) : Prop where
  /-- The numerals are worth at most the bound. -/
  leaves : ∀ p ds v, (⟨p, .numeral ds v⟩ : PlacedToken) ∈ t.leaves → v.toInt.natAbs ≤ bound
  /-- The operators are standard ones. -/
  nodes : ∀ p op, (⟨p, .operator op⟩ : PlacedToken) ∈ t.nodes →
    op ∈ OperatorTable.standard.toList

variable {bound : Nat} {l r t : Tree} {op : Operator} {p : Nat} {v : Int64}

theorem Within.left (h : (node l op p v r).Within bound) : l.Within bound :=
  ⟨fun p ds v hmem => h.leaves p ds v (List.mem_append_left _ hmem),
    fun p op hmem => h.nodes p op (List.mem_append_left _ hmem)⟩

theorem Within.right (h : (node l op p v r).Within bound) : r.Within bound :=
  ⟨fun p ds v hmem => h.leaves p ds v (List.mem_append_right _ hmem),
    fun p op hmem => h.nodes p op (List.mem_append_right _ (List.mem_append_left _ hmem))⟩

theorem Within.standard (h : (node l op p v r).Within bound) :
    op ∈ OperatorTable.standard.toList :=
  h.nodes p op (List.mem_append_right _ (List.mem_append_right _ List.mem_cons_self))

/-- A power of the bound with a numeral or more is at least two. -/
theorem two_le_pow_leaves (hbound : 2 ≤ bound) (t : Tree) : 2 ≤ bound ^ t.leaves.length := by
  rw [length_leaves]
  exact Nat.le_trans hbound (Nat.le_self_pow (Nat.succ_ne_zero _) _)

/-- A tree that is sound is worth what the integers say, and no more than its numerals allow. -/
theorem exact_of_within (hbound : 2 ≤ bound) (hsound : t.Sound) (h : t.Within bound) :
    t.exactValue? = some t.value.toInt ∧ t.value.toInt.natAbs ≤ bound ^ t.leaves.length := by
  induction t with
  | numeral p ds v =>
    refine ⟨rfl, ?_⟩
    have hv := h.leaves p ds v List.mem_cons_self
    rwa [leaves, List.length_singleton, Nat.pow_one]
  | node l op p v r ihl ihr =>
    obtain ⟨hl, hr, hv⟩ := hsound
    obtain ⟨hexactl, hlel⟩ := ihl hl h.left
    obtain ⟨hexactr, hler⟩ := ihr hr h.right
    obtain ⟨n, hn, hfit⟩ := Operator.apply_eq_fit? h.standard l.value r.value
    obtain rfl : v.toInt = n := fit?_eq_some_iff.1 (hfit.symm.trans hv)
    refine ⟨?_, ?_⟩
    · rw [exactValue?, hexactl, hexactr]
      exact hn
    · rw [leaves, List.length_append, Nat.pow_add]
      exact natAbs_le_mul hn hlel hler (l.two_le_pow_leaves hbound) (r.two_le_pow_leaves hbound)

/-- If a standard operator has no value for those of two trees, the exact result is out of the
64-bit range, and the numerals of the trees allow for one. -/
theorem exact_of_apply_eq_none (hbound : 2 ≤ bound) (hop : op ∈ OperatorTable.standard.toList)
    (hl : l.value.toInt.natAbs ≤ bound ^ l.leaves.length)
    (hr : r.value.toInt.natAbs ≤ bound ^ r.leaves.length)
    (h : op.apply l.value r.value = none) :
    ∃ n, Arithmetic.exactValue? op.symbol l.value.toInt r.value.toInt = some n ∧
      (n < -2 ^ 63 ∨ 2 ^ 63 - 1 < n) ∧
      2 ^ 63 ≤ bound ^ (l.leaves.length + r.leaves.length) := by
  obtain ⟨n, hn, hfit⟩ := Operator.apply_eq_fit? hop l.value r.value
  have hrange : n < -2 ^ 63 ∨ 2 ^ 63 - 1 < n := fit?_eq_none_iff.1 (hfit.symm.trans h)
  refine ⟨n, hn, hrange, ?_⟩
  have hle := natAbs_le_mul hn hl hr (l.two_le_pow_leaves hbound) (r.two_le_pow_leaves hbound)
  rw [← Nat.pow_add] at hle
  omega

end Tree

end Abacus
