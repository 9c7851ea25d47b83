import Abacus.Expression.Error
import Abacus.Expression.Token

/-!
# The machine

An expression is worked out token by token with two stacks: the operands computed so far, and
the entries still pending, which are operators that wait for what follows them and brackets that
wait to be closed. An operator is applied to the two topmost operands. It is applied when an
operator comes that binds no more tightly, when the bracket around it is closed, or at the end.

`Machine.step` takes one token and `Machine.finish` ends the run. Both go through
`settle`, the one place where operators leave the stack. A run that fails keeps the machine it
failed in, so what was applied before is known on every path.
-/

namespace Abacus

/-- An entry of the stack that waits for tokens to come. -/
inductive Pending where
  /-- A bracket opened at the position and not closed yet. -/
  | opening (position : Nat)
  /-- An operator read at the position and not applied yet. -/
  | operator (op : Operator) (position : Nat)

/-- An operator that was applied. -/
structure Application where
  /-- The symbol of the operator. -/
  symbol : Char
  /-- The position of the operator. -/
  position : Nat
  /-- The left operand. -/
  left : Int64
  /-- The right operand. -/
  right : Int64
  /-- The value. -/
  result : Int64
  deriving DecidableEq, Repr

/-- What has been computed. -/
structure Workings where
  /-- The operands, the topmost first. -/
  operands : List Int64
  /-- The applications, the latest first. -/
  applied : List Application
  deriving DecidableEq, Repr

/-- The state of a run between two tokens. -/
structure Machine where
  /-- The entries that wait, the topmost first. -/
  pending : List Pending
  /-- What has been computed. -/
  workings : Workings

/-- A run that cannot go on. -/
structure Halt where
  /-- Why. -/
  error : EvaluationError
  /-- The machine when it stopped. -/
  machine : Machine

/-- A run that is over. -/
structure Run where
  /-- The machine when the run ended. -/
  machine : Machine
  /-- What came of the run. -/
  outcome : Except EvaluationError Int64

namespace Run

/-- The run that ended with a value or halted. -/
def ofEnding : Except Halt (Machine × Int64) → Run
  | .ok (m, value) => ⟨m, .ok value⟩
  | .error halt => ⟨halt.machine, .error halt.error⟩

/-- The applications of the run, in order. -/
def applications (r : Run) : List Application := r.machine.workings.applied.reverse

end Run

namespace Workings

/-- Nothing computed yet. -/
def empty : Workings := ⟨[], []⟩

/-- Puts a value on the operands. -/
def push (w : Workings) (value : Int64) : Workings := { w with operands := value :: w.operands }

/-- Applies an operator to the two topmost operands and leaves the value in their place. -/
def apply (w : Workings) (op : Operator) (position : Nat) : Except EvaluationError Workings :=
  match w.operands with
  | right :: left :: rest =>
    match op.apply left right with
    | some result =>
      .ok ⟨result :: rest, ⟨op.symbol, position, left, right, result⟩ :: w.applied⟩
    | none => .error (.overflow op.symbol left right position)
  | _ => .error (.missingOperand op.symbol position)

/-- An application takes two operands, puts its value back and is noted. -/
theorem apply_eq_ok_iff {w w' : Workings} {op : Operator} {position : Nat} :
    w.apply op position = .ok w' ↔
      ∃ left right rest result, w.operands = right :: left :: rest ∧
        op.apply left right = some result ∧
        w' = ⟨result :: rest, ⟨op.symbol, position, left, right, result⟩ :: w.applied⟩ := by
  constructor
  · intro h
    unfold apply at h
    split at h
    · next right left rest hw =>
      split at h
      · next result hr =>
        cases h
        exact ⟨left, right, rest, result, hw, hr, rfl⟩
      · cases h
    · cases h
  · rintro ⟨left, right, rest, result, hw, hr, rfl⟩
    simp [apply, hw, hr]

/-- An application fails for want of operands, or because there is no value for the two it has. -/
theorem apply_eq_error_iff {w : Workings} {op : Operator} {position : Nat} {e : EvaluationError} :
    w.apply op position = .error e ↔
      (w.operands.length < 2 ∧ e = .missingOperand op.symbol position) ∨
        ∃ left right rest, w.operands = right :: left :: rest ∧ op.apply left right = none ∧
          e = .overflow op.symbol left right position := by
  obtain ⟨operands, applied⟩ := w
  constructor
  · intro h
    match operands, h with
    | [], h | [_], h => exact .inl ⟨by simp, (Except.error.inj h).symm⟩
    | right :: left :: rest, h =>
      unfold apply at h
      simp only at h
      split at h
      · cases h
      · next hr =>
        cases h
        exact .inr ⟨left, right, rest, rfl, hr, rfl⟩
  · rintro (⟨hlen, rfl⟩ | ⟨left, right, rest, rfl, hr, rfl⟩)
    · match operands, hlen with
      | [], _ | [_], _ => rfl
    · simp only [apply, hr]

end Workings

/-! ### One part of a run after another -/

section Bind

variable {ε α β γ : Type}

theorem bind_bind (x : Except ε α) (f : α → Except ε β) (g : β → Except ε γ) :
    (x.bind f).bind g = x.bind fun a => (f a).bind g := by
  cases x <;> rfl

/-- A run succeeds if its first part succeeds, and then the rest. -/
theorem bind_eq_ok {x : Except ε α} {f : α → Except ε β} {b : β} :
    x.bind f = .ok b ↔ ∃ a, x = .ok a ∧ f a = .ok b := by
  cases x with
  | error e => simp [Except.bind]
  | ok a => simp [Except.bind]

end Bind

/-! ### Settling operators -/

/-- Applies the operators on top that are due, down to the first entry that is not: a bracket,
or an operator that is not due. -/
def settle (due : Operator → Bool) : List Pending → Workings → Except Halt Machine
  | .operator op position :: rest, w =>
    if due op then
      match w.apply op position with
      | .ok w => settle due rest w
      | .error e => .error ⟨e, ⟨rest, w⟩⟩
    else .ok ⟨.operator op position :: rest, w⟩
  | pending, w => .ok ⟨pending, w⟩

/-- The entry is an operator that is due. -/
def Pending.isDue (due : Operator → Bool) : Pending → Bool
  | .opening _ => false
  | .operator op _ => due op

/-- What is left pending is what was below the operators that are due. -/
theorem pending_of_settle {due : Operator → Bool} {pending : List Pending} {w : Workings}
    {m : Machine} (h : settle due pending w = .ok m) :
    m.pending = pending.dropWhile (·.isDue due) := by
  induction pending generalizing w with
  | nil =>
    cases h
    rfl
  | cons entry rest ih =>
    cases entry with
    | opening position =>
      cases h
      rfl
    | operator op position =>
      by_cases hop : due op = true
      · simp only [settle, hop, if_true] at h
        rw [List.dropWhile_cons_of_pos (by simpa [Pending.isDue] using hop)]
        split at h
        · exact ih h
        · cases h
      · simp only [settle, hop] at h
        cases h
        rw [List.dropWhile_cons_of_neg (by simpa [Pending.isDue] using hop)]

namespace Machine

/-- Nothing read yet. -/
def empty : Machine := ⟨[], .empty⟩

/-- Applies the operators on top that are due. -/
def settle (m : Machine) (due : Operator → Bool) : Except Halt Machine :=
  Abacus.settle due m.pending m.workings

/-- Puts an entry on the stack. -/
def push (m : Machine) (entry : Pending) : Machine := { m with pending := entry :: m.pending }

/-- Takes away the bracket on top, which the bracket at the position closes. -/
def close (m : Machine) (position : Nat) : Except Halt Machine :=
  match m.pending with
  | .opening _ :: rest => .ok { m with pending := rest }
  | _ => .error ⟨.unbalancedBracket position, m⟩

/-- Takes a token. -/
def step (m : Machine) (t : PlacedToken) : Except Halt Machine :=
  match t.token with
  | .blank _ => .ok m
  | .numeral _ value => .ok { m with workings := m.workings.push value }
  | .opening => .ok (m.push (.opening t.position))
  | .operator op =>
    (m.settle fun waiting => op.precedence ≤ waiting.precedence).map
      (·.push (.operator op t.position))
  | .closing => (m.settle fun _ => true).bind (·.close t.position)

/-- Takes the tokens in order. -/
def steps (m : Machine) : List PlacedToken → Except Halt Machine
  | [] => .ok m
  | t :: ts => (m.step t).bind (·.steps ts)

/-- Ends the run: every operator is applied, no bracket may be open, and one operand is left. -/
def finish (m : Machine) : Except Halt (Machine × Int64) :=
  (m.settle fun _ => true).bind fun m =>
    match m.pending, m.workings.operands with
    | .opening position :: _, _ => .error ⟨.unbalancedBracket position, m⟩
    | _, [value] => .ok (m, value)
    | _, operands => .error ⟨.notOneValue operands.length, m⟩

@[simp] theorem steps_nil (m : Machine) : m.steps [] = .ok m := rfl

@[simp] theorem steps_cons (m : Machine) (t : PlacedToken) (ts : List PlacedToken) :
    m.steps (t :: ts) = (m.step t).bind (·.steps ts) := rfl

theorem steps_singleton (m : Machine) (t : PlacedToken) : m.steps [t] = m.step t := by
  rw [steps_cons]
  cases m.step t <;> rfl

/-- Taking two rows of tokens is taking the first and then the second. -/
theorem steps_append (m : Machine) (ts us : List PlacedToken) :
    m.steps (ts ++ us) = (m.steps ts).bind (·.steps us) := by
  induction ts generalizing m with
  | nil => rfl
  | cons t ts ih =>
    rw [List.cons_append, steps_cons, steps_cons, bind_bind]
    exact congrArg _ (funext fun m' => ih m')

end Machine

end Abacus
