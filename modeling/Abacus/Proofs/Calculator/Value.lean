import Abacus.Proofs.Expression.Alternation

/-!
# The value of an infix expression

The machine gives an infix expression the value that arithmetic gives it.

An expression is followed through the machine part by part, as its value is defined, and not
token by token, so nothing has to be said of the operators waiting in the middle of it. What is
said is `Infix.yields`: from any stack none of whose operators the expression makes due, taking
the expression's tokens and then settling leaves the expression's value on the operands and
the stack as it was, or fails with the expression's misfit. An operator of least precedence is
itself such a stack for what stands right of it, and all that stands left of it is due when it
comes; this is what the induction needs of the place where the expression is parted.
-/

namespace Abacus

/-- `Yields k w x r`: the run `r` goes on as `k` from the workings `w` with the value of `x` on
their operands, or it fails with the misfit of `x`. -/
def Yields (k : Workings → Except Halt Machine) (w : Workings) :
    Except Misfit Int64 → Except Halt Machine → Prop
  | .ok v, r => ∃ applied, r = k ⟨v :: w.operands, applied⟩
  | .error f, r => ∃ m, r = .error ⟨f.error, m⟩

/-- What follows the run follows its value. -/
theorem Yields.map {k : Workings → Except Halt Machine} {w : Workings} {x : Except Misfit Int64}
    {r : Except Halt Machine} (f : Machine → Except Halt Machine) (h : Yields k w x r) :
    Yields (fun w => (k w).bind f) w x (r.bind f) := by
  cases x with
  | ok v =>
    obtain ⟨applied, rfl⟩ := h
    exact ⟨applied, rfl⟩
  | error e =>
    obtain ⟨m, rfl⟩ := h
    exact ⟨m, rfl⟩

/-- A run that goes on with a value goes on with what is made of the value. -/
theorem Yields.bind {k k' : Workings → Except Halt Machine} {w w' : Workings}
    {x : Except Misfit Int64} {y : Int64 → Except Misfit Int64} {r : Except Halt Machine}
    (h : Yields k w x r)
    (hk : ∀ v applied, Yields k' w' (y v) (k ⟨v :: w.operands, applied⟩)) :
    Yields k' w' (x.bind y) r := by
  cases x with
  | ok v =>
    obtain ⟨applied, rfl⟩ := h
    exact hk v applied
  | error e => exact h

/-- The stack is as it is when the operator comes: it makes no operator on top due. -/
def Settled (pending : List Pending) (op : Operator) : Prop :=
  ∀ w, settle (fun waiting => op.precedence ≤ waiting.precedence) pending w = .ok ⟨pending, w⟩

theorem settled_nil (op : Operator) : Settled [] op := fun _ => rfl

theorem settled_opening (p : Nat) (pending : List Pending) (op : Operator) :
    Settled (.opening p :: pending) op := fun _ => rfl

/-- An operator is not due when a tighter one comes. -/
theorem settled_operator {op op' : Operator} (h : op'.precedence < op.precedence) (p : Nat)
    (pending : List Pending) : Settled (.operator op' p :: pending) op := by
  intro w
  rw [settle, if_neg (by simpa using h)]

/-- An operator that is due is applied to the two topmost operands. -/
theorem yields_settle_operator {due : Operator → Bool} {op : Operator} (h : due op = true)
    (p : Nat) (pending : List Pending) (w : Workings) (left right : Int64)
    (applied : List Application) :
    Yields (settle due pending) w (op.applyAt p left right)
      (settle due (.operator op p :: pending) ⟨right :: left :: w.operands, applied⟩) := by
  rw [settle, if_pos h]
  unfold Operator.applyAt Workings.apply
  cases hv : op.apply left right with
  | some v => exact ⟨⟨op.symbol, p, left, right, v⟩ :: applied, by simp only [hv]⟩
  | none => exact ⟨⟨pending, _⟩, by simp only [hv]; rfl⟩

/-- The run of an expression up to the operator that parts it, and on. -/
theorem steps_parted (m : Machine) (left right : List PlacedToken) (op : Operator) (p : Nat)
    (f : Machine → Except Halt Machine) :
    (m.steps (left ++ ⟨p, .operator op⟩ :: right)).bind f =
      ((m.steps left).bind (·.settle fun waiting => op.precedence ≤ waiting.precedence)).bind
        fun m => ((m.push (.operator op p)).steps right).bind f := by
  rw [Machine.steps_append]
  cases m.steps left with
  | error e => rfl
  | ok m' =>
    show (((m'.settle _).map _).bind _).bind f = (m'.settle _).bind _
    cases m'.settle fun waiting => op.precedence ≤ waiting.precedence <;> rfl

/-- The run of a group in brackets. -/
theorem steps_group (m : Machine) (p : Nat) (ts : List PlacedToken) (q : Nat) :
    m.steps (⟨p, .opening⟩ :: (ts ++ [⟨q, .closing⟩])) =
      (((m.push (.opening p)).steps ts).bind (·.settle fun _ => true)).bind (·.close q) := by
  show (m.push (.opening p)).steps (ts ++ [⟨q, .closing⟩]) = _
  rw [Machine.steps_append, bind_bind]
  exact congrArg _ (funext fun m' => m'.steps_singleton _)

/-- Two parts of an expression and the operator between them, which is no tighter than any to
its left and looser than any to its right. -/
theorem yields_parted {left right : Infix} {op : Operator} {p : Nat} {pending : List Pending}
    {w : Workings} {due : Operator → Bool} (hpending : Settled pending op) (hdue : due op = true)
    (hleft : Yields (settle (fun waiting => op.precedence ≤ waiting.precedence) pending) w
      left.value (((⟨pending, w⟩ : Machine).steps left.tokens).bind
        (·.settle fun waiting => op.precedence ≤ waiting.precedence)))
    (hright : ∀ w', Yields (settle due (.operator op p :: pending)) w' right.value
      (((⟨.operator op p :: pending, w'⟩ : Machine).steps right.tokens).bind (·.settle due))) :
    Yields (settle due pending) w
      (left.value.bind fun a => right.value.bind fun b => op.applyAt p a b)
      (((⟨pending, w⟩ : Machine).steps (left.tokens ++ ⟨p, .operator op⟩ :: right.tokens)).bind
        (·.settle due)) := by
  rw [steps_parted]
  refine (hleft.map _).bind fun a applied => ?_
  rw [hpending]
  refine (hright ⟨a :: w.operands, applied⟩).bind fun b applied' => ?_
  exact yields_settle_operator hdue p pending w a b applied'

mutual

/-- Taking the tokens of an operand leaves its value on the operands. -/
theorem Operand.yields (o : Operand) (m : Machine) :
    Yields (fun w => .ok ⟨m.pending, w⟩) m.workings o.value (m.steps o.tokens) := by
  match o with
  | .numeral p ds v =>
    rw [Operand.value]
    exact ⟨m.workings.applied, rfl⟩
  | .group p e q =>
    -- everything inside the brackets is due when the closing bracket comes
    have h := e.yields (.opening p :: m.pending) m.workings (fun _ => true)
      (fun op _ => settled_opening p m.pending op) (fun _ _ => rfl)
    rw [Operand.tokens, steps_group, Operand.value]
    exact h.map _
termination_by sizeOf o

/-- Taking the tokens of an expression and settling leaves its value on the operands. -/
theorem Infix.yields (e : Infix) (pending : List Pending) (w : Workings) (due : Operator → Bool)
    (hpending : ∀ op ∈ e.operators, Settled pending op)
    (hdue : ∀ op ∈ e.operators, due op = true) :
    Yields (settle due pending) w e.value
      (((⟨pending, w⟩ : Machine).steps e.tokens).bind (·.settle due)) := by
  match e with
  | .operand o =>
    have h := o.yields ⟨pending, w⟩
    rw [Infix.tokens, Infix.value]
    exact h.map _
  | .link o op p e =>
    obtain ⟨hops, hleft, hright⟩ := Infix.operators_part o op p e
    have hmem {q : Operator} (hq : q ∈ (Infix.part o op p e).left.operators ∨
        q = (Infix.part o op p e).op ∨ q ∈ (Infix.part o op p e).right.operators) :
        q ∈ (Infix.link o op p e).operators := by
      rw [← hops, List.mem_append, List.mem_cons]
      exact hq
    have hdec := Infix.sizeOf_part o op p e
    rw [← Infix.tokens_part, Infix.value]
    refine yields_parted (hpending _ (hmem (.inr (.inl rfl)))) (hdue _ (hmem (.inr (.inl rfl))))
      ?_ fun w' => ?_
    · exact (Infix.part o op p e).left.yields pending w _
        (fun q hq => hpending q (hmem (.inl hq))) (fun q hq => by simpa using hleft q hq)
    · exact (Infix.part o op p e).right.yields _ w' due
        (fun q hq => settled_operator (hright q hq) _ _)
        (fun q hq => hdue q (hmem (.inr (.inr hq))))
termination_by sizeOf e
decreasing_by
  · simp
  · exact hdec.1
  · exact hdec.2

end

/-- Blanks do nothing. -/
theorem steps_visible (m : Machine) (ts : List PlacedToken) :
    m.steps (Token.visible ts) = m.steps ts := by
  induction ts generalizing m with
  | nil => rfl
  | cons t ts ih =>
    obtain ⟨p, t⟩ := t
    cases t with
    | blank ch => exact ih m
    | _ =>
      rw [Token.visible, List.filter_cons_of_pos rfl, Machine.steps_cons, Machine.steps_cons]
      refine congrArg _ (funext fun m' => ?_)
      exact ih m'

/-- The machine gives an expression its value. -/
theorem run_infix (e : Infix) :
    (Run.ofEnding ((Machine.empty.steps e.tokens).bind Machine.finish)).outcome =
      e.value.mapError Misfit.error := by
  have h := e.yields [] .empty (fun _ => true) (fun op _ => settled_nil op) (fun _ _ => rfl)
  show (Run.ofEnding ((Machine.steps ⟨[], .empty⟩ e.tokens).bind fun m =>
    (m.settle fun _ => true).bind _)).outcome = _
  rw [← bind_bind]
  cases he : e.value with
  | ok v =>
    rw [he] at h
    obtain ⟨applied, hr⟩ := h
    rw [hr]
    rfl
  | error f =>
    rw [he] at h
    obtain ⟨m, hr⟩ := h
    rw [hr]
    rfl

namespace Calculator

/-- **The value of an infix expression.** A text that is written as an expression, with blanks
between the tokens wherever one likes, has the value of the expression, and where the expression
has none it fails with the first operator that has no value for its operands. -/
theorem value_infix (c : Calculator) (hc : c.numerals.Unreserved) (e : Infix) (ts : List Token)
    (hts : ∀ t ∈ ts, c.Admits t) (he : Token.visible (Token.place 0 ts) = e.tokens) :
    (c.value (String.ofList (Token.textOf ts))).outcome = e.value.mapError Misfit.error := by
  have hsep : Token.Separate ts := by
    rw [Token.separate_iff 0, he]
    exact e.isChain_tokens
  have hscan : c.scan (String.ofList (Token.textOf ts)).toList = ⟨ts, none⟩ := by
    rw [String.toList_ofList]
    exact scan_textOf hc hts hsep
  show (c.compute _).outcome = _
  rw [compute, hscan, ← run_infix, ← he]
  simp only [steps_visible]

/-- `X - (I + I) * II - I` is written as an expression, and its value is five. -/
theorem value_infix_roman :
    let one : Token := .numeral ['I'] 1
    let ts : List Token :=
      [.numeral ['X'] 10, .blank ' ', .operator .sub, .blank ' ', .opening, one, .blank ' ',
        .operator .add, .blank ' ', one, .closing, .blank ' ', .operator .mul, .blank ' ',
        .numeral ['I', 'I'] 2, .blank ' ', .operator .sub, .blank ' ', one]
    let e : Infix :=
      .link (.numeral 0 ['X'] 10) .sub 2
        (.link (.group 4 (.link (.numeral 5 ['I'] 1) .add 7 (.operand (.numeral 9 ['I'] 1))) 10)
          .mul 12 (.link (.numeral 14 ['I', 'I'] 2) .sub 17 (.operand (.numeral 19 ['I'] 1))))
    roman.numerals.Unreserved ∧ (∀ t ∈ ts, roman.Admits t) ∧
      Token.visible (Token.place 0 ts) = e.tokens ∧
      (roman.value "X - (I + I) * II - I").outcome = .ok 5 := by
  intro one ts e
  have hts : ∀ t ∈ ts, roman.Admits t := by
    have hblank : roman.Admits (.blank ' ') := rfl
    have hnumeral {ds : List Char} {v : Int64} (hne : ds ≠ [])
        (hds : ds.all roman.numerals.isDigit = true)
        (hv : roman.numerals.read? (String.ofList ds) = some v) :
        roman.Admits (.numeral ds v) := ⟨⟨hne, List.all_eq_true.1 hds⟩, hv⟩
    have hone : roman.Admits one := hnumeral (by decide) rfl (by decide +kernel)
    have htwo : roman.Admits (.numeral ['I', 'I'] 2) :=
      hnumeral (by decide) rfl (by decide +kernel)
    have hten : roman.Admits (.numeral ['X'] 10) := hnumeral (by decide) rfl (by decide +kernel)
    have hops : ∀ op ∈ [Operator.add, .sub, .mul], roman.Admits (.operator op) := fun op h => h
    simp only [List.forall_mem_cons, List.not_mem_nil, false_imp_iff, implies_true, and_true] at hops
    simp only [ts, List.forall_mem_cons, hblank, hone, htwo, hten, hops, List.not_mem_nil,
      false_imp_iff, implies_true, and_true, true_and]
    exact ⟨trivial, trivial⟩
  have he : Token.visible (Token.place 0 ts) = e.tokens := rfl
  refine ⟨NumeralSystem.roman_unreserved, hts, he, ?_⟩
  have h := roman.value_infix NumeralSystem.roman_unreserved e ts hts he
  have hv : e.value = .ok 5 := by
    simp [e, Infix.value, Operand.value, Infix.part, Operator.add, Operator.sub, Operator.mul,
      Operator.applyAt]
    rfl
  rw [hv] at h
  exact h

end Calculator

end Abacus
