import Abacus.Proofs.Calculator.Acceptance
import Abacus.Proofs.Calculator.Course
import Abacus.Proofs.Calculator.Origin
import Abacus.Proofs.Expression.Placement
import Abacus.Proofs.Expression.Tree

/-!
# What a run has built

At every point of a run, whatever the text, the operands are the values of a row of trees, and
nothing is lost, doubled or put in another order on the way: the leaves of the trees are the
numerals read so far, their nodes are the operators that have left the stack, and the operators
were applied in the order of the nodes (`Grows`).

An application makes one tree of the two last ones, a numeral is a new tree, and nothing else
changes the trees; so a step of a run keeps `Grows`, and a run does. A run that ends with a value
has a single tree over the whole text (`value_forest`).
-/

namespace Abacus

/-- The operators that wait on the stack. -/
def Machine.waiting (m : Machine) : List PlacedToken :=
  (m.pending.map Pending.token).filter (·.token.isOperator)

/-- `Grows m read forest`: the machine has built the trees from the tokens read. -/
structure Grows (m : Machine) (read : List PlacedToken) (forest : List Tree) : Prop where
  /-- Every node has the value of its operator for its operands. -/
  sound : ∀ t ∈ forest, t.Sound
  /-- The operands, from the bottom to the top, are the values of the trees. -/
  operands : m.workings.operands.reverse = forest.map Tree.value
  /-- The leaves are the numerals in the order they were read. -/
  leaves : forest.flatMap Tree.leaves = read.filter (·.token.isNumeral)
  /-- Every operator that was read is a node or waits, and not both. -/
  nodes : (forest.flatMap Tree.nodes ++ m.waiting).Perm
    (read.filter (·.token.isOperator))
  /-- The operators were applied in the order of the nodes. -/
  applications : m.workings.applied.reverse = forest.flatMap Tree.applications

theorem grows_empty : Grows .empty [] [] :=
  ⟨fun _ h => absurd h List.not_mem_nil, rfl, rfl, .nil, rfl⟩

namespace Grows

variable {m m' : Machine} {read : List PlacedToken} {forest : List Tree}

/-- The two topmost operands are the values of the two last trees. -/
theorem exists_last_two {left right : Int64} {rest : List Int64}
    (h : (right :: left :: rest).reverse = forest.map Tree.value) :
    ∃ others l r, forest = others ++ [l, r] ∧ rest.reverse = others.map Tree.value ∧
      l.value = left ∧ r.value = right := by
  rw [List.reverse_cons, List.reverse_cons, List.append_assoc] at h
  obtain ⟨others, last, rfl, hothers, hlast⟩ := List.map_eq_append_iff.1 h.symm
  match last, hlast with
  | [l, r], hlast =>
    simp only [List.map_cons, List.map_nil, List.singleton_append, List.cons.injEq] at hlast
    exact ⟨others, l, r, rfl, hothers.symm, hlast.1, hlast.2.1⟩

/-- An application makes a node of the two last trees. -/
theorem apply {op : Operator} {p : Nat} {pending : List Pending} {w w' : Workings}
    (h : Grows ⟨.operator op p :: pending, w⟩ read forest) (hw : w.apply op p = .ok w') :
    ∃ forest', Grows ⟨pending, w'⟩ read forest' := by
  obtain ⟨left, right, rest, v, hoperands, hv, rfl⟩ := Workings.apply_eq_ok_iff.1 hw
  obtain ⟨hsound, hvalues, hleaves, hnodes, happlications⟩ := h
  rw [hoperands] at hvalues
  obtain ⟨others, l, r, rfl, hothers, rfl, rfl⟩ := exists_last_two hvalues
  simp only [List.flatMap_append, List.flatMap_cons, List.flatMap_nil, List.append_nil] at *
  refine ⟨others ++ [.node l op p v r], ?_, ?_, ?_, ?_, ?_⟩
  · intro t ht
    rcases List.mem_append.1 ht with ht | ht
    · exact hsound t (List.mem_append_left _ ht)
    · obtain rfl := List.mem_singleton.1 ht
      exact ⟨hsound l (by simp), hsound r (by simp), hv⟩
  · rw [List.reverse_cons, hothers, List.map_append]
    rfl
  · rw [List.flatMap_append, List.flatMap_singleton]
    exact hleaves
  · rw [List.flatMap_append, List.flatMap_singleton, Tree.nodes]
    simpa [Machine.waiting, Pending.token, Token.isOperator] using hnodes
  · rw [List.reverse_cons, happlications, List.flatMap_append, List.flatMap_singleton,
      Tree.applications]
    simp only [List.append_assoc]

/-- A token that is no numeral and no operator changes nothing if it leaves the operators that
wait and what was computed as they are. -/
theorem skip {t : PlacedToken} (h : Grows m read forest) (hn : t.token.isNumeral = false)
    (ho : t.token.isOperator = false)
    (hp : m'.waiting = m.waiting)
    (hw : m'.workings = m.workings) : Grows m' (read ++ [t]) forest := by
  obtain ⟨hsound, hoperands, hleaves, hnodes, happlications⟩ := h
  refine ⟨hsound, hw ▸ hoperands, ?_, ?_, hw ▸ happlications⟩
  · rw [List.filter_append, hleaves, List.filter_singleton, hn, cond_false, List.append_nil]
  · rw [List.filter_append, List.filter_singleton, ho, cond_false, List.append_nil, hp]
    exact hnodes

/-- A numeral is a new tree. -/
theorem push_numeral (h : Grows m read forest) (p : Nat) (ds : List Char) (v : Int64) :
    Grows { m with workings := m.workings.push v } (read ++ [⟨p, .numeral ds v⟩])
      (forest ++ [.numeral p ds v]) := by
  obtain ⟨hsound, hoperands, hleaves, hnodes, happlications⟩ := h
  refine ⟨?_, ?_, ?_, ?_, ?_⟩
  · intro t ht
    rcases List.mem_append.1 ht with ht | ht
    · exact hsound t ht
    · obtain rfl := List.mem_singleton.1 ht
      trivial
  · rw [Workings.push, List.reverse_cons, hoperands, List.map_append]
    rfl
  · rw [List.flatMap_append, hleaves, List.filter_append]
    rfl
  · rw [List.flatMap_append, List.filter_append]
    simpa [Machine.waiting, Tree.nodes, Token.isOperator] using hnodes
  · rw [List.flatMap_append, ← happlications]
    exact (List.append_nil _).symm

/-- An operator waits before it is applied. -/
theorem push_operator (h : Grows m read forest) (op : Operator) (p : Nat) :
    Grows (m.push (.operator op p)) (read ++ [⟨p, .operator op⟩]) forest := by
  obtain ⟨hsound, hoperands, hleaves, hnodes, happlications⟩ := h
  refine ⟨hsound, hoperands, ?_, ?_, happlications⟩
  · rw [hleaves, List.filter_append]
    exact (List.append_nil _).symm
  · rw [List.filter_append]
    exact List.perm_middle.trans ((hnodes.cons _).trans (List.perm_append_singleton _ _).symm)

/-- Taking a token keeps the trees, and a numeral adds one. -/
theorem receive {t : PlacedToken} (h : Grows m read forest) (hm : m.receive t = .ok m') :
    ∃ forest', Grows m' (read ++ [t]) forest' := by
  obtain ⟨p, t⟩ := t
  cases t with
  | blank ch =>
    cases hm
    exact ⟨_, h.skip rfl rfl rfl rfl⟩
  | numeral ds v =>
    cases hm
    exact ⟨_, h.push_numeral p ds v⟩
  | opening =>
    cases hm
    exact ⟨_, h.skip rfl rfl rfl rfl⟩
  | operator op =>
    cases hm
    exact ⟨_, h.push_operator op p⟩
  | closing =>
    simp only [Machine.receive, Machine.close] at hm
    split at hm
    · next hp =>
      cases hm
      exact ⟨_, h.skip rfl rfl (by simp only [Machine.waiting, hp]; rfl) rfl⟩
    · cases hm

/-- A step of a run keeps the trees. -/
theorem next {a b : Point} (h : ∃ forest, Grows a.machine a.read forest) (hstep : a.Next b) :
    ∃ forest, Grows b.machine b.read forest := by
  obtain ⟨forest, h⟩ := h
  cases hstep with
  | apply hp _ hw =>
    have ha : a.machine = ⟨_, a.machine.workings⟩ := congrArg (Machine.mk · _) hp
    rw [ha] at h
    exact h.apply hw
  | take _ _ hm => exact h.receive hm

/-- A run keeps the trees. -/
theorem reaches {a b : Point} (h : ∃ forest, Grows a.machine a.read forest)
    (hrun : a.Reaches b) : ∃ forest, Grows b.machine b.read forest := by
  induction hrun with
  | refl => exact h
  | tail _ hstep ih => exact next ih hstep

end Grows

/-- No operator is applied twice. -/
theorem Grows.nodup_applications {q : Point} {forest : List Tree}
    (h : Grows q.machine q.read forest) (hread : (q.read.map PlacedToken.position).Nodup) :
    (q.applications.map Application.position).Nodup := by
  have hnodes : q.applications.map Application.position =
      (forest.flatMap Tree.nodes).map PlacedToken.position := by
    rw [Point.applications, h.applications, List.map_flatMap, List.map_flatMap]
    exact List.flatMap_congr fun t _ => t.map_position_applications
  have hall : ((forest.flatMap Tree.nodes ++ q.machine.waiting).map
      PlacedToken.position).Nodup :=
    (h.nodes.map _).nodup_iff.2 (hread.sublist (List.filter_sublist.map _))
  rw [hnodes]
  rw [List.map_append] at hall
  exact (List.nodup_append.1 hall).1

/-- What is left of a run that has taken all tokens and applied all operators, with one operand,
is a single tree. -/
theorem Grows.single {m : Machine} {read : List PlacedToken} {forest : List Tree} {v : Int64}
    (h : Grows m read forest) (hp : m.pending = []) (hv : m.workings.operands = [v]) :
    ∃ tree : Tree, tree.Sound ∧ tree.value = v ∧ tree.leaves = read.filter (·.token.isNumeral) ∧
      tree.nodes.Perm (read.filter (·.token.isOperator)) ∧
      m.workings.applied.reverse = tree.applications := by
  obtain ⟨hsound, hoperands, hleaves, hnodes, happlications⟩ := h
  rw [hv] at hoperands
  match forest, hoperands with
  | [tree], hoperands =>
    simp only [List.flatMap_singleton, Machine.waiting, hp, List.map_nil, List.filter_nil,
      List.append_nil] at *
    exact ⟨tree, hsound tree List.mem_cons_self, (List.cons.inj hoperands).1.symm, hleaves, hnodes,
      happlications⟩

namespace Calculator

variable {c : Calculator} {cs : List Char} {q : Point}

theorem grows_of_reaches (h : (c.start cs).Reaches q) :
    ∃ forest, Grows q.machine q.read forest :=
  Grows.reaches ⟨[], grows_empty⟩ h

/-- The tokens read at a point stand at different positions. -/
theorem nodup_position_read (h : (c.start cs).Reaches q) :
    (q.read.map PlacedToken.position).Nodup := by
  have hread : q.read ++ q.coming = Token.place 0 (c.scan cs).tokens := h.read_append_coming
  have hnodup := Token.nodup_position_place 0 fun t (ht : t ∈ (c.scan cs).tokens) =>
    text_ne_nil_of_mem_scan ht
  rw [← hread, List.map_append] at hnodup
  exact (List.nodup_append.1 hnodup).1

/-- At the last point everything has been applied that the run applies. -/
theorem applications_of_last (h : (c.start cs).Reaches q) (hlast : q.Last) :
    (c.compute cs).applications = q.applications := by
  rw [Run.applications, Point.applications, (ends_of_last h hlast).2]

/-- If the run gives a value, its last point is the end of the text, with one operand left. -/
theorem end_of_outcome {v : Int64} (h : (c.start cs).Reaches q) (hlast : q.Last)
    (hv : (c.compute cs).outcome = .ok v) :
    q.coming = [] ∧ q.fault? = none ∧ q.machine.pending = [] ∧
      q.machine.workings.operands = [v] := by
  have hends := (ends_of_last h hlast).1
  rw [hv] at hends
  cases hends with
  | value hcoming hfault hp hoperands => exact ⟨hcoming, hfault, hp, hoperands⟩

/-- **What a run has built.** At every point of a run, whatever the text, the operands are the
values of trees whose leaves are the numerals read so far, in order, whose nodes are operators
read so far, each once, and whose nodes in order are what was applied so far. A text that has a
value has one tree over all its numerals and all its operators. -/
theorem value_forest (c : Calculator) (expression : String) :
    let start := c.start expression.toList
    let numerals := start.coming.filter (·.token.isNumeral)
    let operators := start.coming.filter (·.token.isOperator)
    let t := c.value expression
    (∀ q, start.Reaches q →
      q.read ++ q.coming = start.coming ∧
      (∃ forest, Grows q.machine q.read forest) ∧
      (q.applications.map Application.position).Nodup ∧
      .evaluating expression :: q.applications.map .applied <+: t.events) ∧
    (∃ q, start.Reaches q ∧ q.Last ∧
      t.events = .evaluating expression :: q.applications.map .applied) ∧
    (∀ v, t.outcome = .ok v →
      Token.textOf (c.scan expression.toList).tokens = expression.toList ∧
      numerals.length = operators.length + 1 ∧
      ∃ tree : Tree, tree.Sound ∧ tree.value = v ∧ tree.leaves = numerals ∧
        tree.nodes.Perm operators ∧
        t.events = .evaluating expression :: tree.applications.map .applied ∧
        tree.applications.length = operators.length ∧
        ((∃ a, tree.applications.getLast? = some a ∧ a.result = v) ∨
          ∃ p ds, numerals = [⟨p, .numeral ds v⟩])) := by
  intro start numerals operators t
  have hevents {q : Point} (h : start.Reaches q) (hlast : q.Last) :
      t.events = .evaluating expression :: q.applications.map .applied := by
    rw [← applications_of_last h hlast]
    rfl
  refine ⟨fun q hq => ?_, ?_, fun v hv => ?_⟩
  · obtain ⟨forest, hforest⟩ := grows_of_reaches hq
    refine ⟨hq.read_append_coming, ⟨forest, hforest⟩,
      hforest.nodup_applications (nodup_position_read hq), ?_⟩
    obtain ⟨r, hr, hlast⟩ := q.exists_last
    rw [hevents (Relation.ReflTransGen.trans hq hr) hlast]
    exact (List.prefix_cons_inj _).2 (hr.applications_prefix.map _)
  · obtain ⟨q, hq, hlast⟩ := start.exists_last
    exact ⟨q, hq, hlast, hevents hq hlast⟩
  · obtain ⟨q, hq, hlast⟩ := start.exists_last
    obtain ⟨hcoming, hfault, hpending, hoperands⟩ := end_of_outcome hq hlast hv
    have hread : q.read = start.coming := by
      have hall := hq.read_append_coming
      rwa [hcoming, List.append_nil] at hall
    have hscan : (c.scan expression.toList).fault? = none := by
      rw [hq.fault?_eq] at hfault
      exact Option.map_eq_none_iff.1 hfault
    obtain ⟨forest, hforest⟩ := grows_of_reaches hq
    obtain ⟨tree, hsound, rfl, hleaves, hnodes, happlications⟩ := hforest.single hpending hoperands
    rw [hread] at hleaves hnodes
    have hoperators : tree.nodes.length = operators.length := hnodes.length_eq
    refine ⟨textOf_scan hscan, ?_, tree, hsound, rfl, hleaves, hnodes, ?_, ?_, ?_⟩
    · rw [← hoperators, ← tree.length_leaves, hleaves]
    · rw [hevents hq hlast, ← happlications]
      rfl
    · rw [tree.length_applications, hoperators]
    · rcases tree.value_eq with hlast | ⟨-, honly⟩
      · exact .inl hlast
      · rw [hleaves] at honly
        exact .inr honly

/-- `X - (II III *)` has a value although it is no infix expression, and the product is the right
operand of the difference. -/
theorem value_forest_roman :
    (roman.value "X - (II III *)").outcome = .ok 4 ∧
      ∃ tree : Tree, tree.Sound ∧ tree.value = 4 ∧
        tree.leaves = [⟨0, .numeral ['X'] 10⟩, ⟨5, .numeral ['I', 'I'] 2⟩,
          ⟨8, .numeral ['I', 'I', 'I'] 3⟩] ∧
        (roman.value "X - (II III *)").events =
          .evaluating "X - (II III *)" :: tree.applications.map .applied := by
  have hscan : roman.scan "X - (II III *)".toList =
      ⟨[.numeral ['X'] 10, .blank ' ', .operator .sub, .blank ' ', .opening,
        .numeral ['I', 'I'] 2, .blank ' ', .numeral ['I', 'I', 'I'] 3, .blank ' ', .operator .mul,
        .closing], none⟩ := by
    cbv
  have hv : (roman.value "X - (II III *)").outcome = .ok 4 := outcome_of_scan hscan
  obtain ⟨-, -, htree⟩ := roman.value_forest "X - (II III *)"
  obtain ⟨-, -, tree, hsound, hvalue, hleaves, -, hevents, -⟩ := htree 4 hv
  refine ⟨hv, tree, hsound, hvalue, ?_, hevents⟩
  rw [hleaves, start, hscan]
  rfl

end Calculator

end Abacus
