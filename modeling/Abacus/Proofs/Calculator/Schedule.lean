import Abacus.Proofs.Calculator.Lexing
import Abacus.Proofs.Expression.Schedule

/-!
# The order of work

What the machine does with a text, well formed or not, is what the schedule of its tokens says
(`value_schedule`): which operands come, when each operator is applied, and what is reported.

The machine and the schedule are compared one token at a time. `Follows` says that a run does
some tasks and leaves some entries pending; `settle_follows` says it of the operators that are
applied when a token comes, `receive_follows` of the token itself. What is pending between two
tokens is always the stack of the tokens that were read.
-/

namespace Abacus

/-- What one sees of a run without looking at what is pending. -/
def seen : Except Halt Machine → Except Stop Workings
  | .ok m => .ok m.workings
  | .error halt => .error ⟨halt.error, halt.machine.workings⟩

/-- `Follows r tasks w pending`: the run `r` does the tasks from the workings `w`, and the
entries are pending if it gets to the end of them. -/
def Follows (r : Except Halt Machine) (tasks : List Task) (w : Workings)
    (pending : List Pending) : Prop :=
  seen r = perform tasks w ∧ ∀ m, r = .ok m → m.pending = pending

/-- One run after another does the tasks of the one and then those of the other. -/
theorem Follows.bind {r : Except Halt Machine} {f : Machine → Except Halt Machine}
    {xs ys : List Task} {w : Workings} {p p' : List Pending} (h : Follows r xs w p)
    (hf : ∀ m, m.pending = p → Follows (f m) ys m.workings p') :
    Follows (r.bind f) (xs ++ ys) w p' := by
  obtain ⟨hseen, hp⟩ := h
  rw [Follows, perform_append, ← hseen]
  cases r with
  | ok m => exact hf m (hp m rfl)
  | error halt => exact ⟨rfl, fun m hm => by cases hm⟩

open Schedule

/-- Settling applies the operators on top that are due. -/
theorem settle_follows (released : Operator → Bool) (pending : List Pending) (w : Workings) :
    Follows (settle released pending w) ((pending.takeWhile (·.isDue released)).flatMap tasksOf) w
      (pending.dropWhile (·.isDue released)) := by
  refine ⟨?_, fun m hm => pending_of_settle hm⟩
  induction pending generalizing w with
  | nil => rfl
  | cons e pending ih =>
    cases e with
    | opening p => rfl
    | operator op p =>
      by_cases hop : released op = true
      · have hdue : (Pending.operator op p).isDue released = true := hop
        rw [settle, if_pos hop, List.takeWhile_cons_of_pos hdue, List.flatMap_cons]
        simp only [tasksOf, List.singleton_append, perform_application]
        cases w.apply op p with
        | ok w' => exact ih w'
        | error e => rfl
      · have hdue : ¬ (Pending.operator op p).isDue released = true := hop
        rw [settle, if_neg hop, List.takeWhile_cons_of_neg hdue]
        rfl

namespace Machine

variable {m : Machine} {read : List PlacedToken}

/-- A machine whose stack is that of the tokens that were read applies the operators that are
due. -/
theorem settle_stack (h : m.pending = stack read) {released : Operator → Bool}
    (hup : Upward released) :
    Follows (m.settle released) (due released read) m.workings
      ((stack read).dropWhile (·.isDue released)) := by
  have hfollows := settle_follows released m.pending m.workings
  rw [h, (takeWhile_dropWhile_stack hup read).1] at hfollows
  rw [settle, h]
  exact hfollows

/-- Takes a token when the operators it releases are settled. -/
def receive (m : Machine) (t : PlacedToken) : Except Halt Machine :=
  match t.token with
  | .blank _ => .ok m
  | .numeral _ value => .ok { m with workings := m.workings.push value }
  | .opening => .ok (m.push (.opening t.position))
  | .operator op => .ok (m.push (.operator op t.position))
  | .closing => m.close t.position

theorem settle_none (m : Machine) : (m.settle fun _ => false) = .ok m := by
  obtain ⟨pending, w⟩ := m
  cases pending with
  | nil => rfl
  | cons e pending => cases e <;> rfl

/-- A token is taken in two turns: the operators it releases, and then the token. -/
theorem step_eq (m : Machine) (t : PlacedToken) :
    m.step t = (m.settle t.token.releases).bind (·.receive t) := by
  have hnone (h : t.token.releases = fun _ => false) :
      (m.settle t.token.releases).bind (·.receive t) = m.receive t := by
    rw [h, settle_none]
    rfl
  obtain ⟨p, t⟩ := t
  cases t with
  | operator op =>
    show (m.settle _).map _ = (m.settle fun waiting => op.precedence ≤ waiting.precedence).bind _
    cases m.settle fun waiting => op.precedence ≤ waiting.precedence <;> rfl
  | closing => rfl
  | _ => exact (hnone rfl).symm

/-- A token by itself does its own task and changes the stack as the schedule has it. -/
theorem receive_follows {t : PlacedToken}
    (h : m.pending = (stack read).dropWhile (·.isDue t.token.releases)) :
    Follows (m.receive t) (own read t) m.workings (stack (read ++ [t])) := by
  obtain ⟨p, t⟩ := t
  cases t with
  | closing =>
    obtain ⟨hdrop, hnil⟩ := stack_snoc_closing read p
    have hpending := h.trans hdrop
    simp only [receive, close, own]
    cases ho : Token.unclosed read with
    | nil =>
      rw [ho, hnil ho] at hpending
      rw [hpending]
      exact ⟨rfl, fun m' hm' => by cases hm'⟩
    | cons q qs =>
      rw [ho] at hpending
      rw [hpending]
      refine ⟨rfl, fun m' hm' => ?_⟩
      cases hm'
      rfl
  | _ =>
    refine ⟨rfl, fun m' hm' => ?_⟩
    cases hm'
    rw [stack_snoc read (by simp)]
    simp [waiting?, waits_nil, Token.unopened, push, h]

theorem step_follows (h : m.pending = stack read) (t : PlacedToken) :
    Follows (m.step t) (due t.token.releases read ++ own read t) m.workings
      (stack (read ++ [t])) := by
  rw [step_eq]
  exact (settle_stack h (upward_releases t.token)).bind fun m' hm' => receive_follows hm'

/-- Settles all operators of the innermost group and looks for a bracket left open. -/
def drain (m : Machine) : Except Halt Machine :=
  (m.settle fun _ => true).bind fun m =>
    match m.pending with
    | .opening position :: _ => .error ⟨.unbalancedBracket position, m⟩
    | _ => .ok m

theorem drain_follows (h : m.pending = stack read) :
    Follows m.drain (atEnd read) m.workings [] := by
  refine (settle_stack h fun _ _ _ _ => rfl).bind fun m' hm' => ?_
  obtain ⟨hdrop, hnil⟩ := stack_snoc_closing read 0
  have hpending := hm'.trans hdrop
  cases ho : Token.unclosed read with
  | nil =>
    rw [ho, hnil ho] at hpending
    rw [hpending]
    refine ⟨rfl, fun m hm => ?_⟩
    cases hm
    exact hpending
  | cons p ps =>
    rw [ho] at hpending
    rw [hpending]
    exact ⟨rfl, fun m hm => by cases hm⟩

/-- Goes on to the end of the row, or into the fault that the row goes on with. -/
def endWith (m : Machine) : Option EvaluationError → Except Halt Machine
  | none => m.drain
  | some e => .error ⟨e, m⟩

/-- A machine does with a row of tokens what the schedule says. -/
theorem steps_follows (h : m.pending = stack read) (ts : List PlacedToken)
    (fault? : Option EvaluationError) :
    Follows ((m.steps ts).bind (·.endWith fault?)) (tasks read ts fault?) m.workings [] := by
  induction ts generalizing m read with
  | nil =>
    cases fault? with
    | none => exact drain_follows h
    | some e => exact ⟨rfl, fun m' hm' => by cases hm'⟩
  | cons t ts ih =>
    rw [steps_cons, bind_bind, tasks, ← List.append_assoc]
    exact (step_follows h t).bind fun m' hm' => ih hm'

/-- Asks for the one operand that is to be left. -/
def single (m : Machine) : Except Halt (Machine × Int64) :=
  match m.workings.operands with
  | [value] => .ok (m, value)
  | operands => .error ⟨.notOneValue operands.length, m⟩

theorem finish_eq (m : Machine) : m.finish = m.drain.bind single := by
  unfold finish drain
  cases m.settle fun _ => true with
  | error halt => rfl
  | ok m' =>
    obtain ⟨pending, operands, applied⟩ := m'
    match pending, operands with
    | .opening p :: pending, _ => rfl
    | [], [] | [], [_] | [], _ :: _ :: _ => rfl
    | .operator _ _ :: _, [] | .operator _ _ :: _, [_] | .operator _ _ :: _, _ :: _ :: _ => rfl

end Machine

namespace Schedule

/-- The tasks of a text that is lexed into the tokens and then ends or goes on with the fault. -/
def ofTokens (ts : List Token) (fault? : Option ScanFault) : List Task :=
  tasks [] (Token.place 0 ts) (fault?.map (·.error (Text.width (Token.textOf ts))))

/-- What an expression comes to when its tasks have come to this. -/
def conclude (expression : String) : Except Stop Workings → Traced Int64
  | .ok w =>
    { events := .evaluating expression :: w.applied.reverse.map .applied
      outcome :=
        match w.operands with
        | [value] => .ok value
        | operands => .error (.notOneValue operands.length) }
  | .error stop =>
    { events := .evaluating expression :: stop.workings.applied.reverse.map .applied
      outcome := .error stop.error }

/-- A run that is to leave one operand is concluded from what is seen of it. -/
theorem conclude_seen (expression : String) (r : Except Halt Machine) :
    let run := Run.ofEnding (r.bind Machine.single)
    ⟨.evaluating expression :: run.applications.map .applied, run.outcome⟩ =
      conclude expression (seen r) := by
  cases r with
  | error halt => rfl
  | ok m =>
    obtain ⟨pending, operands, applied⟩ := m
    match operands with
    | [] => rfl
    | [value] => rfl
    | a :: b :: operands => rfl

end Schedule

namespace Calculator

/-- **The order of work.** A text, whatever it is, is lexed in one way, and its value comes of
doing the tasks of its tokens in the order of their schedule. -/
theorem value_schedule (c : Calculator) (hc : c.numerals.Unreserved) (expression : String) :
    ∃ ts fault?,
      (∀ us f?, c.Lexes expression.toList us f? ↔ us = ts ∧ f? = fault?) ∧
      c.value expression =
        Schedule.conclude expression (perform (Schedule.ofTokens ts fault?) .empty) := by
  rcases hscan : c.scan expression.toList with ⟨ts, fault?⟩
  refine ⟨ts, fault?, fun us f? => ?_, ?_⟩
  · rw [← scan_eq_iff hc, hscan, Scan.mk.injEq, eq_comm, eq_comm (a := fault?)]
  · have hempty : Machine.empty.pending = Schedule.stack [] := rfl
    have hfollows := Machine.steps_follows hempty (Token.place 0 ts)
      (fault?.map (·.error (Text.width (Token.textOf ts))))
    have hrun : c.compute expression.toList = Run.ofEnding
        (((Machine.empty.steps (Token.place 0 ts)).bind
          (·.endWith (fault?.map (·.error (Text.width (Token.textOf ts)))))).bind Machine.single) := by
      rw [compute, hscan]
      cases Machine.empty.steps (Token.place 0 ts) with
      | error halt => rfl
      | ok m =>
        cases fault? with
        | some fault => rfl
        | none => exact congrArg _ m.finish_eq
    rw [value, hrun, Schedule.conclude_seen, hfollows.1]
    rfl

/-- In `I * (II + III` the sum is worked out before the open bracket is reported, and the product
is not. In `I - II III *` the product comes first, and the difference takes it from `I`. -/
theorem value_schedule_roman :
    NumeralSystem.roman.Unreserved ∧
      roman.value "I * (II + III" =
        { events :=
            [.evaluating "I * (II + III", .applied ⟨'+', 8, 2, 3, 5⟩]
          outcome := .error (.unbalancedBracket 4) } ∧
      roman.value "I - II III *" =
        { events :=
            [.evaluating "I - II III *", .applied ⟨'*', 11, 2, 3, 6⟩, .applied ⟨'-', 2, 1, 6, -5⟩]
          outcome := .ok (-5) } := by
  have hc := NumeralSystem.roman_unreserved
  refine ⟨hc, ?_, ?_⟩
  · obtain ⟨ts, fault?, hlex, hvalue⟩ := roman.value_schedule hc "I * (II + III"
    obtain ⟨rfl, rfl⟩ := (hlex
      [.numeral ['I'] 1, .blank ' ', .operator .mul, .blank ' ', .opening, .numeral ['I', 'I'] 2,
        .blank ' ', .operator .add, .blank ' ', .numeral ['I', 'I', 'I'] 3] none).1
      ((scan_eq_iff hc).1 (by cbv))
    rw [hvalue]
    rfl
  · obtain ⟨ts, fault?, hlex, hvalue⟩ := roman.value_schedule hc "I - II III *"
    obtain ⟨rfl, rfl⟩ := (hlex
      [.numeral ['I'] 1, .blank ' ', .operator .sub, .blank ' ', .numeral ['I', 'I'] 2, .blank ' ',
        .numeral ['I', 'I', 'I'] 3, .blank ' ', .operator .mul] none).1
      ((scan_eq_iff hc).1 (by cbv))
    rw [hvalue]
    rfl

end Calculator

end Abacus
