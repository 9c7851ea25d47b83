import Abacus.Expression.Bracket
import Abacus.Operator.Basic
import Abacus.Operator.Error

/-!
# Operator tables

The operators an expression may be written with. A table has at least one operator, no two of
its operators share a symbol, and no symbol is reserved, so a character means at most one thing.

`OperatorTable.ofList` makes a table of a list of operators or says what is wrong with it, and
`setupFault?_eq_none_iff` says that nothing is wrong exactly when the three conditions hold.
-/

namespace Abacus

/-- The first operator whose symbol is reserved or was used before, the symbols in `used` being
those used before. -/
def symbolFault? (used : List Char) : List Operator → Option SetupError
  | [] => none
  | op :: ops =>
    if isReserved op.symbol then some (.reservedSymbol op.symbol)
    else if op.symbol ∈ used then some (.repeatedSymbol op.symbol)
    else symbolFault? (op.symbol :: used) ops

/-- What is wrong with the operators as a table. -/
def setupFault? (ops : List Operator) : Option SetupError :=
  if ops.isEmpty then some .noOperator else symbolFault? [] ops

theorem symbolFault?_eq_none_iff {used : List Char} {ops : List Operator} :
    symbolFault? used ops = none ↔
      (∀ op ∈ ops, isReserved op.symbol = false) ∧ (∀ op ∈ ops, op.symbol ∉ used) ∧
        (ops.map Operator.symbol).Nodup := by
  induction ops generalizing used with
  | nil => simp [symbolFault?]
  | cons op ops ih =>
    unfold symbolFault?
    split
    · next h => simp [h]
    · next h =>
      split
      · next hu => simp [hu]
      · next hu =>
        rw [ih]
        simp only [List.mem_cons, forall_eq_or_imp, not_or, List.map_cons, List.nodup_cons,
          List.mem_map, not_exists, not_and, forall_and]
        grind

/-- Nothing is wrong with operators that are there, not reserved and all different. -/
theorem setupFault?_eq_none_iff {ops : List Operator} :
    setupFault? ops = none ↔
      ops ≠ [] ∧ (∀ op ∈ ops, isReserved op.symbol = false) ∧
        (ops.map Operator.symbol).Nodup := by
  unfold setupFault?
  split
  · next h => simp [List.isEmpty_iff.1 h]
  · next h =>
    rw [symbolFault?_eq_none_iff]
    simp_all

/-- Among operators of different symbols, the first with the symbol of `op` is `op`. -/
theorem find?_of_nodup {ops : List Operator} (h : (ops.map Operator.symbol).Nodup)
    {op : Operator} (hop : op ∈ ops) : ops.find? (·.symbol == op.symbol) = some op := by
  induction ops with
  | nil => cases hop
  | cons a ops ih =>
    obtain ⟨ha, h⟩ := List.nodup_cons.1 h
    rcases List.mem_cons.1 hop with rfl | hop
    · simp
    · have hne : a.symbol ≠ op.symbol := fun e => ha (e ▸ List.mem_map_of_mem hop)
      rw [List.find?_cons_of_neg (by simpa using hne)]
      exact ih h hop

/-- The operators of a calculator, in the order they were given. -/
structure OperatorTable where
  /-- The operators. -/
  toList : List Operator
  /-- There is an operator. -/
  ne_nil : toList ≠ []
  /-- No symbol has another meaning. -/
  unreserved : ∀ op ∈ toList, isReserved op.symbol = false
  /-- No two operators share a symbol. -/
  nodup : (toList.map Operator.symbol).Nodup

namespace OperatorTable

/-- The table of these operators. -/
def ofList (ops : List Operator) : Except SetupError OperatorTable :=
  match h : setupFault? ops with
  | some e => .error e
  | none =>
    let ok := setupFault?_eq_none_iff.1 h
    .ok ⟨ops, ok.1, ok.2.1, ok.2.2⟩

/-- Addition, subtraction and multiplication. -/
def standard : OperatorTable where
  toList := [.add, .sub, .mul]
  ne_nil := by simp
  unreserved := by decide
  nodup := by decide

/-- The operator with this symbol. -/
def find? (t : OperatorTable) (c : Char) : Option Operator := t.toList.find? (·.symbol == c)

/-- An operator has this symbol. -/
def contains (t : OperatorTable) (c : Char) : Bool := (t.find? c).isSome

/-- The number of operators. -/
def size (t : OperatorTable) : Nat := t.toList.length

/-- There is no operator, which no table allows. -/
def isEmpty (t : OperatorTable) : Bool := t.toList.isEmpty

/-- What is found for a symbol is the operator of the table that has it. -/
theorem find?_eq_some_iff {t : OperatorTable} {c : Char} {op : Operator} :
    t.find? c = some op ↔ op ∈ t.toList ∧ op.symbol = c := by
  constructor
  · intro h
    exact ⟨List.mem_of_find?_eq_some h, by simpa using List.find?_some h⟩
  · rintro ⟨hop, rfl⟩
    exact find?_of_nodup t.nodup hop

/-- A table is made of the operators when nothing is wrong with them. -/
theorem ofList_eq_ok_iff {ops : List Operator} {t : OperatorTable} :
    ofList ops = .ok t ↔ t.toList = ops := by
  constructor
  · intro h
    unfold ofList at h
    split at h
    · cases h
    · cases h
      rfl
  · rintro rfl
    have h : setupFault? t.toList = none :=
      setupFault?_eq_none_iff.2 ⟨t.ne_nil, t.unreserved, t.nodup⟩
    unfold ofList
    split
    · next e he => rw [h] at he; cases he
    · rfl

/-- No table is made of operators exactly when something is wrong with them. -/
theorem ofList_eq_error_iff {ops : List Operator} {e : SetupError} :
    ofList ops = .error e ↔ setupFault? ops = some e := by
  unfold ofList
  split
  · next e' he => simp [he]
  · next he => simp [he]

end OperatorTable

end Abacus
