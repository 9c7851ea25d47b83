import Abacus.Proofs.Calculator.Diagnostics
import Abacus.Proofs.Calculator.Forest
import Abacus.Proofs.Expression.Exact
import Abacus.Proofs.Numeral.Inverse

/-!
# How large values get

With Roman numerals and the standard operators every value on the way is exact, and what was
built from `k` numerals is at most `3999 ^ k` (`Calculator.value_magnitude`). Six numerals are
needed to leave the 64-bit range: a text with fewer never overflows, whatever its brackets and
even if it is no expression, and an overflow is reported only where the exact result is out of
the range.

This is read off the trees that a run has built: their leaves are different numerals of the text
and their nodes are operators of the text, so what is known of a tree by the number of its leaves
holds of every operand at every point of a run.
-/

namespace Abacus

/-- An operator that waits was read. -/
theorem Grows.mem_read_of_waiting {m : Machine} {read : List PlacedToken} {forest : List Tree}
    {op : Operator} {p : Nat} (h : Grows m read forest) (hp : .operator op p ∈ m.pending) :
    (⟨p, .operator op⟩ : PlacedToken) ∈ read := by
  have hwaits : (⟨p, .operator op⟩ : PlacedToken) ∈ m.waiting :=
    List.mem_filter.2 ⟨List.mem_map_of_mem hp, rfl⟩
  exact List.mem_of_mem_filter (h.nodes.subset (List.mem_append_right _ hwaits))

/-- Every numeral that was read is a leaf of one tree. -/
theorem Grows.sum_length_leaves {m : Machine} {read : List PlacedToken} {forest : List Tree}
    (h : Grows m read forest) :
    (forest.map (·.leaves.length)).sum = Token.count Token.isNumeral read := by
  rw [Token.count, List.countP_eq_length_filter, ← h.leaves, List.length_flatMap]

namespace Calculator

variable {cs : List Char} {q : Point}

/-- A token that was read is one of the text. -/
theorem admits_of_mem_read {c : Calculator} (h : (c.start cs).Reaches q) {t : PlacedToken}
    (ht : t ∈ q.read) : c.Admits t.token := by
  have hread : q.read ++ q.coming = Token.place 0 (c.scan cs).tokens := h.read_append_coming
  have hmem : t ∈ Token.place 0 (c.scan cs).tokens := hread ▸ List.mem_append_left _ ht
  exact (goesOn_of_mem_place hmem).1

/-- The trees of a run are made of Roman numerals and standard operators. -/
theorem within_of_grows (h : (roman.start cs).Reaches q) {forest : List Tree}
    (hforest : Grows q.machine q.read forest) {t : Tree} (ht : t ∈ forest) : t.Within 3999 := by
  constructor
  · intro p ds v hmem
    have hread : (⟨p, .numeral ds v⟩ : PlacedToken) ∈ q.read.filter (·.token.isNumeral) :=
      hforest.leaves ▸ List.mem_flatMap.2 ⟨t, ht, hmem⟩
    obtain ⟨-, hv⟩ := admits_of_mem_read h (List.mem_of_mem_filter hread)
    obtain ⟨hpos, hle⟩ := Numeral.inRange_of_read? hv
    omega
  · intro p op hmem
    have hread : (⟨p, .operator op⟩ : PlacedToken) ∈ q.read.filter (·.token.isOperator) :=
      hforest.nodes.subset (List.mem_append_left _ (List.mem_flatMap.2 ⟨t, ht, hmem⟩))
    exact admits_of_mem_read h (List.mem_of_mem_filter hread)

/-- If a text overflows, the run has come to an operator that has no value for those of the two
last trees. -/
theorem exists_of_overflow {c : Calculator} {o : Char} {left right : Int64} {p : Nat}
    (h : (c.compute cs).outcome = .error (.overflow o left right p)) :
    ∃ q, (c.start cs).Reaches q ∧ q.Last ∧ ∃ others l r op,
      Grows q.machine q.read (others ++ [l, r]) ∧ (⟨p, .operator op⟩ : PlacedToken) ∈ q.read ∧
        o = op.symbol ∧ l.value = left ∧ r.value = right ∧ op.apply left right = none := by
  obtain ⟨q, hq, hlast⟩ := (c.start cs).exists_last
  have hends := (ends_of_last hq hlast).1
  rw [h] at hends
  cases hends with
  | fault _ hfault => cases isLexical_of_reaches hq hfault
  | application hp _ hw =>
    rcases Workings.apply_eq_error_iff.1 hw with ⟨-, he⟩ | ⟨left, right, rest, hoperands, hv, he⟩
    · cases he
    · cases he
      obtain ⟨forest, hforest⟩ := grows_of_reaches hq
      have hvalues := hforest.operands
      rw [hoperands] at hvalues
      obtain ⟨others, l, r, rfl, -, hl, hr⟩ := Grows.exists_last_two hvalues
      have hread := hforest.mem_read_of_waiting (hp ▸ List.mem_cons_self)
      exact ⟨q, hq, hlast, others, l, r, _, hforest, hread, rfl, hl, hr, hv⟩

/-- The values of the trees of a run are exact, and no larger than their numerals allow. -/
theorem exact_of_grows (h : (roman.start cs).Reaches q) {forest : List Tree}
    (hforest : Grows q.machine q.read forest) {t : Tree} (ht : t ∈ forest) :
    t.exactValue? = some t.value.toInt ∧ t.value.toInt.natAbs ≤ 3999 ^ t.leaves.length :=
  Tree.exact_of_within (by decide) (hforest.sound t ht) (within_of_grows h hforest ht)

/-- If a text overflows, the exact result is out of the range, and six numerals have been read. -/
theorem exact_of_overflow {o : Char} {left right : Int64} {p : Nat}
    (h : (roman.compute cs).outcome = .error (.overflow o left right p)) :
    (∃ n, Arithmetic.exactValue? o left.toInt right.toInt = some n ∧
        (n < -2 ^ 63 ∨ 2 ^ 63 - 1 < n)) ∧
      ∃ q, (roman.start cs).Reaches q ∧ q.Last ∧ 6 ≤ Token.count Token.isNumeral q.read := by
  obtain ⟨q, hq, hlast, others, l, r, op, hforest, hread, rfl, rfl, rfl, hnone⟩ :=
    exists_of_overflow h
  obtain ⟨-, hl⟩ := exact_of_grows hq hforest (t := l) (by simp)
  obtain ⟨-, hr⟩ := exact_of_grows hq hforest (t := r) (by simp)
  obtain ⟨n, hn, hrange, hlarge⟩ := Tree.exact_of_apply_eq_none (by decide)
    (admits_of_mem_read hq hread) hl hr hnone
  refine ⟨⟨n, hn, hrange⟩, q, hq, hlast, ?_⟩
  have hleaves := hforest.sum_length_leaves
  rw [List.map_append, List.sum_append] at hleaves
  simp only [List.map_cons, List.map_nil, List.sum_cons, List.sum_nil] at hleaves
  -- five numerals do not get that far
  by_contra hfew
  have hpow : 3999 ^ (l.leaves.length + r.leaves.length) ≤ 3999 ^ 5 :=
    Nat.pow_le_pow_right (by decide) (by omega)
  omega

/-- **How large values get.** At every point of a run the operands are the values of trees over
different numerals of the text; each is exactly what the integers say, and no more than
`3999 ^ k` for a tree over `k` numerals. A text with at most five numerals does not overflow. If a
text overflows, the exact result is out of the 64-bit range, and at least six numerals have been
read. -/
theorem value_magnitude (expression : String) :
    let start := roman.start expression.toList
    let outcome := (roman.value expression).outcome
    (∀ q, start.Reaches q → ∃ forest, Grows q.machine q.read forest ∧ ∀ t ∈ forest,
      t.exactValue? = some t.value.toInt ∧ t.value.toInt.natAbs ≤ 3999 ^ t.leaves.length) ∧
    (Token.count Token.isNumeral start.coming ≤ 5 →
      ∀ o left right p, outcome ≠ .error (.overflow o left right p)) ∧
    ∀ o left right p, outcome = .error (.overflow o left right p) →
      (∃ n, Arithmetic.exactValue? o left.toInt right.toInt = some n ∧
        (n < -2 ^ 63 ∨ 2 ^ 63 - 1 < n)) ∧
      ∃ q, start.Reaches q ∧ q.Last ∧ 6 ≤ Token.count Token.isNumeral q.read := by
  intro start outcome
  refine ⟨fun q hq => ?_, fun hfew o left right p h => ?_, fun o left right p h => ?_⟩
  · obtain ⟨forest, hforest⟩ := grows_of_reaches hq
    exact ⟨forest, hforest, fun t ht => exact_of_grows hq hforest ht⟩
  · obtain ⟨-, q, hq, -, hmany⟩ := exact_of_overflow h
    have hread : q.read ++ q.coming = start.coming := hq.read_append_coming
    have hle : Token.count Token.isNumeral q.read ≤ Token.count Token.isNumeral start.coming := by
      rw [← hread, Token.count, Token.count, List.countP_append]
      exact Nat.le_add_right _ _
    omega
  · exact exact_of_overflow h

/-- The product of six times `MMM` overflows at the last operator, and 3000 to the power of six
is out of the range. -/
theorem value_magnitude_roman :
    (roman.value "MMM*MMM*MMM*MMM*MMM*MMM").outcome =
        .error (.overflow '*' 243000000000000000 3000 19) ∧
      ∃ n, Arithmetic.exactValue? '*' 243000000000000000 3000 = some n ∧
        (n < -2 ^ 63 ∨ 2 ^ 63 - 1 < n) := by
  let factor : Token := .numeral ['M', 'M', 'M'] 3000
  let times : List Token := [.operator .mul, factor]
  let ts := factor :: (List.replicate 5 times).flatten
  have hfactor : roman.Admits factor :=
    ⟨⟨List.cons_ne_nil _ _, List.all_eq_true.1 (by decide)⟩, by decide +kernel⟩
  have hmul : roman.Admits (.operator .mul) := .tail _ (.tail _ (.head _))
  have htimes : ∀ t ∈ times, roman.Admits t :=
    List.forall_mem_cons.2 ⟨hmul, List.forall_mem_singleton.2 hfactor⟩
  have hts : ∀ t ∈ ts, roman.Admits t := by
    refine List.forall_mem_cons.2 ⟨hfactor, fun t ht => ?_⟩
    obtain ⟨row, hrow, ht⟩ := List.mem_flatten.1 ht
    exact htimes t (List.eq_of_mem_replicate hrow ▸ ht)
  have hsep : Token.Separate ts := by
    unfold Token.Separate
    decide
  have htext : Token.textOf ts = "MMM*MMM*MMM*MMM*MMM*MMM".toList := by decide
  have hscan : roman.scan "MMM*MMM*MMM*MMM*MMM*MMM".toList = ⟨ts, none⟩ :=
    htext ▸ scan_textOf NumeralSystem.roman_unreserved hts hsep
  have hv : (roman.value "MMM*MMM*MMM*MMM*MMM*MMM").outcome =
      .error (.overflow '*' 243000000000000000 3000 19) := outcome_of_scan hscan
  obtain ⟨-, -, hoverflow⟩ := value_magnitude "MMM*MMM*MMM*MMM*MMM*MMM"
  exact ⟨hv, (hoverflow _ _ _ _ hv).1⟩

end Calculator

end Abacus
