import Abacus.Proofs.Calculator.Acceptance
import Abacus.Proofs.Calculator.Moving

/-!
# Groups in brackets

What a machine does within brackets does not reach below the bracket that opens them: from a
machine that has opened a bracket a run does what it would do from the empty machine
(`Machine.within`), as long as it does not fail there. So a text that has a value leaves, as a
group in brackets, its value on the operands and everything else as it was
(`Calculator.steps_group_of_value`).

This is said of runs that succeed only. One that finds no operand on its own would find those
that stand below.
-/

namespace Abacus

namespace Machine

/-- The machine at work within a bracket that another machine has opened at the position. -/
def within (m base : Machine) (p : Nat) : Machine where
  pending := m.pending ++ .opening p :: base.pending
  workings := ⟨m.workings.operands ++ base.workings.operands,
    m.workings.applied ++ base.workings.applied⟩

variable {m m' : Machine}

/-- Nothing has been done yet within a bracket that was just opened. -/
theorem within_empty (base : Machine) (p : Nat) :
    empty.within base p = base.push (.opening p) := rfl

theorem settle_within {due : Operator → Bool} (h : m.settle due = .ok m') (base : Machine)
    (p : Nat) : (m.within base p).settle due = .ok (m'.within base p) := by
  obtain ⟨pending, w⟩ := m
  unfold settle within at *
  induction pending generalizing w with
  | nil =>
    cases h
    rfl
  | cons entry pending ih =>
    cases entry with
    | opening q =>
      cases h
      rfl
    | operator op q =>
      simp only [List.cons_append, Abacus.settle] at h ⊢
      split at h
      · next hop =>
        split at h
        · next w' hw =>
          obtain ⟨left, right, rest, v, hoperands, hv, rfl⟩ := Workings.apply_eq_ok_iff.1 hw
          have happly : Workings.apply ⟨w.operands ++ base.workings.operands,
              w.applied ++ base.workings.applied⟩ op q = .ok _ :=
            Workings.apply_eq_ok_iff.2 ⟨left, right, rest ++ base.workings.operands, v,
              by rw [hoperands]; rfl, hv, rfl⟩
          rw [if_pos hop, happly]
          exact ih _ h
        · cases h
      · next hop =>
        cases h
        rw [if_neg hop]
        rfl

theorem receive_within {t : PlacedToken} (h : m.receive t = .ok m') (base : Machine) (p : Nat) :
    (m.within base p).receive t = .ok (m'.within base p) := by
  obtain ⟨q, t⟩ := t
  cases t with
  | closing =>
    obtain ⟨pending, w⟩ := m
    match pending, h with
    | .opening _ :: rest, h =>
      cases h
      rfl
  | _ =>
    cases h
    rfl

/-- A token is taken within a bracket as it is taken alone. -/
theorem step_within {t : PlacedToken} (h : m.step t = .ok m') (base : Machine) (p : Nat) :
    (m.within base p).step t = .ok (m'.within base p) := by
  rw [step_eq] at h ⊢
  obtain ⟨m₁, hsettle, hreceive⟩ := bind_eq_ok.1 h
  exact bind_eq_ok.2 ⟨_, settle_within hsettle base p, receive_within hreceive base p⟩

/-- Tokens are taken within a bracket as they are taken alone. -/
theorem steps_within {ts : List PlacedToken} (h : m.steps ts = .ok m') (base : Machine)
    (p : Nat) : (m.within base p).steps ts = .ok (m'.within base p) := by
  induction ts generalizing m with
  | nil =>
    cases h
    rfl
  | cons t ts ih =>
    obtain ⟨m₁, hstep, hsteps⟩ := bind_eq_ok.1 h
    exact bind_eq_ok.2 ⟨_, step_within hstep base p, ih hsteps⟩

/-- The machine with one more operand, after some applications. -/
def gain (m : Machine) (v : Int64) (since : List Application) : Machine where
  pending := m.pending
  workings := ⟨v :: m.workings.operands, since ++ m.workings.applied⟩

/-- Tokens that have a value on their own leave it on the operands when they stand in brackets:
the closing bracket applies what the end would apply. -/
theorem steps_group_of_finish {ts : List PlacedToken} {v : Int64} (h : empty.steps ts = .ok m)
    (hv : m.finish = .ok (m', v)) (base : Machine) (p q : Nat) :
    ∃ since, base.steps (⟨p, .opening⟩ :: (ts ++ [⟨q, .closing⟩])) = .ok (base.gain v since) := by
  obtain ⟨⟨operands, applied⟩, hsettle, rfl⟩ := finish_eq_ok hv
  refine ⟨applied, ?_⟩
  rw [steps_group, ← within_empty, steps_within h base p]
  show ((m.within base p).settle fun _ => true).bind _ = _
  rw [settle_within hsettle base p]
  rfl

end Machine

namespace Calculator

/-- A text that has a value leaves it on the operands when it stands in brackets, wherever these
are. -/
theorem steps_group_of_value {c : Calculator} {e : String} {v : Int64}
    (hv : (c.value e).outcome = .ok v) (base : Machine) (p start q : Nat) :
    ∃ since, base.steps (⟨p, .opening⟩ ::
      (Token.place start (c.scan e.toList).tokens ++ [⟨q, .closing⟩])) =
        .ok (base.gain v since) := by
  obtain ⟨-, m, m', hsteps, hfinish⟩ := value_eq_ok hv
  rw [steps_visible] at hsteps
  have hplace : Token.place start (c.scan e.toList).tokens =
      (Token.place 0 (c.scan e.toList).tokens).map (·.move (· + start)) :=
    Token.place_eq_map_move fun p _ => rfl
  have hmoved := (Machine.moved_empty (· + start)).steps (Token.place 0 (c.scan e.toList).tokens)
  rw [hsteps, ← hplace] at hmoved
  cases hsteps' : Machine.empty.steps (Token.place start (c.scan e.toList).tokens) with
  | error halt =>
    rw [hsteps'] at hmoved
    exact absurd hmoved id
  | ok n =>
    rw [hsteps'] at hmoved
    have hstop : (Run.ofEnding n.finish).outcome = (Run.ofEnding m.finish).outcome.mapError _ :=
      (Machine.Moved.stop hmoved none).outcome
    rw [hfinish] at hstop
    obtain ⟨n', hn⟩ := outcome_ofEnding.1 hstop
    exact Machine.steps_group_of_finish hsteps' hn base p q

end Calculator

end Abacus
