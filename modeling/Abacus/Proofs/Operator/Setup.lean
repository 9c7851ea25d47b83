import Abacus.Proofs.Calculator.Precedence

/-!
# Setting up a table

A list of operators makes a table if no symbol in it is reserved or stands for an operator before
it, and if it is not empty. If it makes none, the first operator that cannot come after those
before it is reported (`ofList_eq_error_iff_clash`). What is found in the table is the operator of
the list.

Which fault is reported depends on the order of the list, but not whether there is one
(`Listable.perm`), and what a calculator does with its operators does not depend on it either. The
main statement is `setup_exact`.
-/

namespace Abacus

/-! ### The first operator that cannot be taken -/

/-- The operator cannot come after the others: its symbol is reserved, or one of them has it. -/
def Operator.Clashes (before : List Operator) (op : Operator) : Prop :=
  isReserved op.symbol = true ∨ ∃ other ∈ before, other.symbol = op.symbol

/-- What is reported of an operator that cannot come after the others: that its symbol is reserved,
if it is, and else that it is repeated. -/
def Operator.clash (op : Operator) : SetupError :=
  if isReserved op.symbol then .reservedSymbol op.symbol else .repeatedSymbol op.symbol

/-- Every operator of the list can come after those before it. -/
def Fitting (ops : List Operator) : Prop :=
  ∀ before op after, ops = before ++ op :: after → ¬ op.Clashes before

section SymbolFault

variable {used : List Char} {op : Operator} {ops : List Operator}

theorem symbolFault?_cons_of_clash (h : isReserved op.symbol = true ∨ op.symbol ∈ used)
    (ops : List Operator) : symbolFault? used (op :: ops) = some op.clash := by
  rw [symbolFault?, Operator.clash]
  split
  · rfl
  · next hr => rw [if_pos (h.resolve_left hr)]

/-- The symbol of an operator that can be taken counts as used from there on. -/
theorem symbolFault?_cons_of_not_clash (h : ¬ (isReserved op.symbol = true ∨ op.symbol ∈ used))
    (ops : List Operator) :
    symbolFault? used (op :: ops) = symbolFault? (op.symbol :: used) ops := by
  obtain ⟨hr, hu⟩ := not_or.1 h
  rw [symbolFault?, if_neg hr, if_neg hu]

/-- What clashes after an operator clashes with it or with the others. -/
theorem clashes_cons_iff {a : Operator} {before : List Operator} :
    op.symbol ∈ used ∨ op.Clashes (a :: before) ↔
      op.symbol ∈ a.symbol :: used ∨ op.Clashes before := by
  simp only [Operator.Clashes, List.mem_cons, exists_eq_or_imp, eq_comm (a := a.symbol)]
  tauto

/-- The fault is that of the first operator that cannot be taken after the symbols that are used
and the operators before it. -/
theorem symbolFault?_eq_some_iff {e : SetupError} :
    symbolFault? used ops = some e ↔
      ∃ before op after, ops = before ++ op :: after ∧ symbolFault? used before = none ∧
        (op.symbol ∈ used ∨ op.Clashes before) ∧ e = op.clash := by
  induction ops generalizing used with
  | nil => simp [symbolFault?]
  | cons a ops ih =>
    by_cases ha : isReserved a.symbol = true ∨ a.symbol ∈ used
    · rw [symbolFault?_cons_of_clash ha]
      constructor
      · rintro ⟨⟩
        exact ⟨[], a, ops, rfl, rfl, ha.symm.imp_right .inl, rfl⟩
      · rintro ⟨before, op, after, hops, hbefore, -, rfl⟩
        cases before with
        | nil =>
          obtain ⟨rfl, -⟩ := List.cons.inj hops
          rfl
        | cons b before =>
          obtain ⟨rfl, -⟩ := List.cons.inj hops
          rw [symbolFault?_cons_of_clash ha] at hbefore
          cases hbefore
    · rw [symbolFault?_cons_of_not_clash ha, ih]
      constructor
      · rintro ⟨before, op, after, rfl, hbefore, hop, rfl⟩
        exact ⟨a :: before, op, after, rfl,
          (symbolFault?_cons_of_not_clash ha before).trans hbefore,
          clashes_cons_iff.2 hop, rfl⟩
      · rintro ⟨before, op, after, hops, hbefore, hop, rfl⟩
        cases before with
        | nil =>
          obtain ⟨rfl, -⟩ := List.cons.inj hops
          rcases hop with hop | hop | ⟨other, hother, -⟩
          · exact absurd (.inr hop) ha
          · exact absurd (.inl hop) ha
          · cases hother
        | cons b before =>
          obtain ⟨rfl, rfl⟩ := List.cons.inj hops
          exact ⟨before, op, after, rfl,
            (symbolFault?_cons_of_not_clash ha before).symm.trans hbefore,
            clashes_cons_iff.1 hop, rfl⟩

/-- No symbol is at fault exactly in lists in which every operator can come after those before
it. -/
theorem symbolFault?_eq_none_iff_fitting : symbolFault? [] ops = none ↔ Fitting ops := by
  constructor
  · rintro h before op after rfl (hr | ⟨other, hother, hsymbol⟩)
    · have hunreserved := (symbolFault?_eq_none_iff.1 h).1 op (by simp)
      rw [hr] at hunreserved
      cases hunreserved
    · have hnodup := (symbolFault?_eq_none_iff.1 h).2.2
      rw [List.map_append, List.map_cons] at hnodup
      exact (List.nodup_append.1 hnodup).2.2 _ (List.mem_map_of_mem hother) _ List.mem_cons_self
        hsymbol
  · intro h
    cases hfault : symbolFault? [] ops with
    | none => rfl
    | some e =>
      obtain ⟨before, op, after, hops, -, hop, -⟩ := symbolFault?_eq_some_iff.1 hfault
      exact absurd (hop.resolve_left List.not_mem_nil) (h before op after hops)

end SymbolFault

/-- No table is made of operators if there are none, or one of them cannot come after those before
it; then the first such is reported. -/
theorem ofList_eq_error_iff_clash {ops : List Operator} {e : SetupError} :
    OperatorTable.ofList ops = .error e ↔
      (ops = [] ∧ e = .noOperator) ∨
        ∃ before op after, ops = before ++ op :: after ∧ Fitting before ∧ op.Clashes before ∧
          e = op.clash := by
  rw [OperatorTable.ofList_eq_error_iff, setupFault?]
  split
  · next hnil =>
    obtain rfl := List.isEmpty_iff.1 hnil
    simp [eq_comm]
  · next hne =>
    rw [List.isEmpty_iff] at hne
    simp only [symbolFault?_eq_some_iff, symbolFault?_eq_none_iff_fitting, List.not_mem_nil,
      false_or, hne, false_and]

/-! ### Lists that make a table -/

/-- The operators can be listed in a table: there is one, none has a reserved symbol, and no two
have the same. -/
structure Listable (ops : List Operator) : Prop where
  /-- There is an operator. -/
  ne_nil : ops ≠ []
  /-- No symbol is reserved. -/
  unreserved : ∀ op ∈ ops, isReserved op.symbol = false
  /-- No two symbols are the same. -/
  nodup : (ops.map Operator.symbol).Nodup

namespace Listable

variable {ops ops' : List Operator}

theorem iff_fitting : Listable ops ↔ ops ≠ [] ∧ Fitting ops := by
  rw [← symbolFault?_eq_none_iff_fitting, symbolFault?_eq_none_iff]
  constructor
  · rintro ⟨hne, hr, hnodup⟩
    exact ⟨hne, hr, fun _ _ => List.not_mem_nil, hnodup⟩
  · rintro ⟨hne, hr, -, hnodup⟩
    exact ⟨hne, hr, hnodup⟩

/-- The order of the operators does not matter. -/
theorem perm (h : ops.Perm ops') (hops : Listable ops) : Listable ops' where
  ne_nil hnil := hops.ne_nil (h.trans (hnil ▸ .refl _)).eq_nil
  unreserved op hop := hops.unreserved op (h.mem_iff.2 hop)
  nodup := (h.map Operator.symbol).nodup_iff.1 hops.nodup

theorem perm_iff (h : ops.Perm ops') : Listable ops ↔ Listable ops' :=
  ⟨perm h, perm h.symm⟩

end Listable

theorem exists_ofList_iff {ops : List Operator} :
    (∃ t, OperatorTable.ofList ops = .ok t) ↔ Listable ops := by
  constructor
  · rintro ⟨t, ht⟩
    obtain rfl := OperatorTable.ofList_eq_ok_iff.1 ht
    exact ⟨t.ne_nil, t.unreserved, t.nodup⟩
  · intro h
    exact ⟨⟨ops, h.ne_nil, h.unreserved, h.nodup⟩, OperatorTable.ofList_eq_ok_iff.2 rfl⟩

/-! ### Calculators of the same operators -/

namespace Calculator

/-- The calculator with these operators and numerals, if the operators make a table and do not get
in the way of the numerals. -/
def ofOperators (ops : List Operator) (numerals : NumeralSystem) : Except SetupError Calculator :=
  (OperatorTable.ofList ops).bind fun t => ofParts t numerals

variable {ops ops' : List Operator} {numerals : NumeralSystem}

theorem ofOperators_eq_ok_iff {c : Calculator} :
    ofOperators ops numerals = .ok c ↔ c.operators.toList = ops ∧ c.numerals = numerals := by
  rw [ofOperators, bind_eq_ok]
  simp only [OperatorTable.ofList_eq_ok_iff, ofParts_eq_ok_iff]
  constructor
  · rintro ⟨t, rfl, rfl, hn⟩
    exact ⟨rfl, hn⟩
  · rintro ⟨rfl, hn⟩
    exact ⟨c.operators, rfl, rfl, hn⟩

/-- There is a calculator exactly if the operators make a table and none is written as a digit. -/
theorem exists_ofOperators_iff :
    (∃ c, ofOperators ops numerals = .ok c) ↔
      Listable ops ∧ ∀ op ∈ ops, numerals.isDigit op.symbol = false := by
  simp only [ofOperators_eq_ok_iff]
  constructor
  · rintro ⟨c, rfl, rfl⟩
    exact ⟨⟨c.operators.ne_nil, c.operators.unreserved, c.operators.nodup⟩, c.apart⟩
  · rintro ⟨h, hapart⟩
    exact ⟨⟨⟨ops, h.ne_nil, h.unreserved, h.nodup⟩, numerals, hapart⟩, rfl, rfl⟩

/-- Calculators with the same operators in another order are alike on every text. -/
theorem alike_of_perm {c c' : Calculator} (hn : c'.numerals = c.numerals)
    (h : c.operators.toList.Perm c'.operators.toList) (cs : List Char) : c.Alike c' cs :=
  alike_of_unused hn (fun _ hop => h.mem_iff.1 hop) fun _ hop => .inl (h.mem_iff.2 hop)

end Calculator

/-- **Setting up a table.** No table is made of an empty list, or of a list with an operator that
cannot come after those before it, and the first such is reported: that its symbol is reserved, if
it is, and else that it is repeated. Of every other list a table is made, and what is found in it
for a character is the operator of the list that has it for a symbol. Whether a table is made, or a
calculator, does not depend on the order of the list, and neither does what the calculator does. -/
theorem setup_exact (ops : List Operator) :
    (∀ e, OperatorTable.ofList ops = .error e ↔
      (ops = [] ∧ e = .noOperator) ∨
        ∃ before op after, ops = before ++ op :: after ∧ Fitting before ∧ op.Clashes before ∧
          e = if isReserved op.symbol then .reservedSymbol op.symbol
            else .repeatedSymbol op.symbol) ∧
    (ops ≠ [] → Fitting ops → ∃ t, OperatorTable.ofList ops = .ok t ∧ t.size = ops.length ∧
      ∀ ch, (∀ op, t.find? ch = some op ↔ op ∈ ops ∧ op.symbol = ch) ∧
        (t.find? ch = none ↔ ∀ op ∈ ops, op.symbol ≠ ch) ∧
        (t.contains ch = true ↔ ∃ op ∈ ops, op.symbol = ch)) ∧
    ∀ ops', ops.Perm ops' →
      ((∃ t, OperatorTable.ofList ops = .ok t) ↔ ∃ t, OperatorTable.ofList ops' = .ok t) ∧
      ∀ numerals, ((∃ c, Calculator.ofOperators ops numerals = .ok c) ↔
          ∃ c, Calculator.ofOperators ops' numerals = .ok c) ∧
        ∀ c c', Calculator.ofOperators ops numerals = .ok c →
          Calculator.ofOperators ops' numerals = .ok c' →
            ∀ s, c'.value s = c.value s ∧ c'.evaluate s = c.evaluate s := by
  refine ⟨fun e => ofList_eq_error_iff_clash, fun hne hfit => ?_,
    fun ops' h => ⟨?_, fun n => ⟨?_, ?_⟩⟩⟩
  · obtain ⟨t, ht⟩ := exists_ofList_iff.2 (Listable.iff_fitting.2 ⟨hne, hfit⟩)
    obtain rfl := OperatorTable.ofList_eq_ok_iff.1 ht
    refine ⟨t, ht, rfl, fun ch => ⟨fun op => OperatorTable.find?_eq_some_iff,
      Calculator.find?_eq_none_iff t ch, ?_⟩⟩
    rw [OperatorTable.contains, Option.isSome_iff_exists]
    simp only [OperatorTable.find?_eq_some_iff]
  · rw [exists_ofList_iff, exists_ofList_iff, Listable.perm_iff h]
  · rw [Calculator.exists_ofOperators_iff, Calculator.exists_ofOperators_iff, Listable.perm_iff h]
    simp only [h.mem_iff]
  · intro c c' hc hc' s
    obtain ⟨rfl, rfl⟩ := Calculator.ofOperators_eq_ok_iff.1 hc
    obtain ⟨rfl, hn⟩ := Calculator.ofOperators_eq_ok_iff.1 hc'
    have halike := Calculator.alike_of_perm hn h s.toList
    exact ⟨halike.value_eq, halike.evaluate_eq⟩

/-- Of a repeated symbol and a blank the one that comes first is reported. The standard operators
make a table, and listed in another order they make a calculator that does what the calculator for
Roman numerals does. -/
theorem setup_exact_standard :
    let again : Operator := ⟨'+', 5, Arithmetic.mul?⟩
    let blank : Operator := ⟨' ', 1, Arithmetic.add?⟩
    OperatorTable.ofList [.add, .sub, again, blank] = .error (.repeatedSymbol '+') ∧
      OperatorTable.ofList [.add, blank, again] = .error (.reservedSymbol ' ') ∧
      (∃ t, OperatorTable.ofList [.add, .sub, .mul] = .ok t ∧ t.size = 3 ∧
        t.find? '-' = some .sub ∧ t.find? '/' = none) ∧
      ∃ c, Calculator.ofOperators [.mul, .add, .sub] .roman = .ok c ∧
        ∀ s, c.value s = Calculator.roman.value s := by
  intro again blank
  have hfit {ops : List Operator} (h : symbolFault? [] ops = none) : Fitting ops :=
    symbolFault?_eq_none_iff_fitting.1 h
  obtain ⟨-, htable, hperm⟩ := setup_exact [.add, .sub, .mul]
  obtain ⟨t, ht, hsize, hfind⟩ := htable (by simp) (hfit rfl)
  have hroman : Calculator.ofOperators [.add, .sub, .mul] .roman = .ok Calculator.roman :=
    Calculator.ofOperators_eq_ok_iff.2 ⟨rfl, rfl⟩
  have hlast : ([.add, .sub] ++ [.mul] : List Operator).Perm ([.mul] ++ [.add, .sub]) :=
    List.perm_append_comm
  obtain ⟨hiff, hsame⟩ := (hperm _ hlast).2 .roman
  obtain ⟨c, hc⟩ := hiff.1 ⟨_, hroman⟩
  refine ⟨((setup_exact _).1 _).2 (.inr ⟨[.add, .sub], again, [blank], rfl, hfit rfl, ?_, rfl⟩),
    ((setup_exact _).1 _).2 (.inr ⟨[.add], blank, [again], rfl, hfit rfl, .inl rfl, rfl⟩),
    ⟨t, ht, hsize, ((hfind '-').1 _).2 ⟨by simp, rfl⟩, (hfind '/').2.1.2 (by decide)⟩,
    c, hc, fun s => (hsame _ c hroman hc s).1⟩
  exact .inr ⟨.add, List.mem_cons_self, rfl⟩

end Abacus
