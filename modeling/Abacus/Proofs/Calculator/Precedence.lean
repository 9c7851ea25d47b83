import Abacus.Proofs.Calculator.Origin
import Abacus.Proofs.Expression.Placement

/-!
# The order of precedence

What a calculator does with a text depends only on the operators that stand in the text, and of
their precedences only the order counts (`Calculator.value_alike`). Two calculators that know the
same operators among the characters of a text, and agree on which of two of them binds more
tightly, come to the same value or the same fault and tell the same events.

The run of the one calculator is the run of the other with other precedences written on its
operators (`regrade`). A machine looks at precedences only to compare an operator that waits with
one that comes, so a step commutes with writing others on, as long as the operators that wait and
that come are ones whose order is the same (`Machine.step_regrade`), and so does a run.
-/

namespace Abacus

/-! ### Other precedences -/

/-- The operator with the precedence it is given. -/
def Operator.regrade (grade : Operator → Nat) (op : Operator) : Operator :=
  { op with precedence := grade op }

/-- The token, with another precedence if it is an operator. -/
def Token.regrade (grade : Operator → Nat) : Token → Token
  | .operator op => .operator (op.regrade grade)
  | t => t

/-- The token at its place, with another precedence if it is an operator. -/
def PlacedToken.regrade (grade : Operator → Nat) (t : PlacedToken) : PlacedToken :=
  { t with token := t.token.regrade grade }

/-- The entry, with another precedence if it is an operator. -/
def Pending.regrade (grade : Operator → Nat) : Pending → Pending
  | .opening p => .opening p
  | .operator op p => .operator (op.regrade grade) p

/-- The machine with other precedences of the operators that wait. -/
def Machine.regrade (grade : Operator → Nat) (m : Machine) : Machine :=
  { m with pending := m.pending.map (·.regrade grade) }

/-- The halt with other precedences of the operators that wait. -/
def Halt.regrade (grade : Operator → Nat) (halt : Halt) : Halt :=
  { halt with machine := halt.machine.regrade grade }

/-- What a part of a run comes to, with other precedences of the operators that wait. -/
def regraded (grade : Operator → Nat) : Except Halt Machine → Except Halt Machine
  | .ok m => .ok (m.regrade grade)
  | .error halt => .error (halt.regrade grade)

/-- The run with other precedences of the operators that wait. -/
def Run.regrade (grade : Operator → Nat) (r : Run) : Run :=
  { r with machine := r.machine.regrade grade }

variable {grade : Operator → Nat}

@[simp] theorem Token.text_regrade (t : Token) : (t.regrade grade).text = t.text := by
  cases t <;> rfl

@[simp] theorem Token.textOf_map_regrade (ts : List Token) :
    textOf (ts.map (·.regrade grade)) = textOf ts := by
  induction ts with
  | nil => rfl
  | cons t ts ih => rw [List.map_cons, textOf_cons, textOf_cons, text_regrade, ih]

/-- Tokens stand where they stood. -/
theorem Token.place_map_regrade (start : Nat) (ts : List Token) :
    place start (ts.map (·.regrade grade)) = (place start ts).map (·.regrade grade) := by
  induction ts generalizing start with
  | nil => rfl
  | cons t ts ih =>
    rw [List.map_cons, place, place, List.map_cons, ih, width, text_regrade]
    rfl

/-- What follows a part of a run with other precedences follows the part itself, if it commutes
with them. -/
theorem regraded_bind {r : Except Halt Machine} {f g : Machine → Except Halt Machine}
    (h : ∀ m, r = .ok m → g (m.regrade grade) = regraded grade (f m)) :
    (regraded grade r).bind g = regraded grade (r.bind f) := by
  cases r with
  | ok m => exact h m rfl
  | error halt => rfl

/-! ### Machines that compare alike -/

/-- The token, if it is an operator, is one of these. -/
def PlacedToken.IsAmong (among : Operator → Prop) (t : PlacedToken) : Prop :=
  ∀ op, t.token = .operator op → among op

/-- The grades of these operators are in the order of their precedences. -/
def Ordered (grade : Operator → Nat) (among : Operator → Prop) : Prop :=
  ∀ op waiting, among op → among waiting →
    (grade op ≤ grade waiting ↔ op.precedence ≤ waiting.precedence)

/-- Settling commutes with other precedences if the same operators are due. -/
theorem settle_regrade {due due' : Operator → Bool} {pending : List Pending}
    (h : ∀ op p, Pending.operator op p ∈ pending → due' (op.regrade grade) = due op)
    (w : Workings) :
    settle due' (pending.map (·.regrade grade)) w = regraded grade (settle due pending w) := by
  induction pending generalizing w with
  | nil => rfl
  | cons e pending ih =>
    cases e with
    | opening p => rfl
    | operator op p =>
      have hop := h op p List.mem_cons_self
      have happly : w.apply (op.regrade grade) p = w.apply op p := rfl
      rw [List.map_cons, Pending.regrade, settle, settle, hop, happly]
      split
      · cases w.apply op p with
        | ok w' => exact ih (fun op p hmem => h op p (List.mem_cons_of_mem _ hmem)) w'
        | error e => rfl
      · rfl

namespace Machine

variable {among : Operator → Prop} {m : Machine}

/-- An operator that waits is one of these, if everything that waits is. -/
theorem Holds.among_of_mem (h : m.Holds (·.IsAmong among)) {op : Operator} {p : Nat}
    (hmem : Pending.operator op p ∈ m.pending) : among op :=
  h _ hmem op rfl

/-- The same operators are due when the token comes with another precedence. -/
theorem releases_regrade (hgrade : Ordered grade among) {t : PlacedToken}
    (ht : t.IsAmong among) {waiting : Operator} (hwaiting : among waiting) :
    (t.token.regrade grade).releases (waiting.regrade grade) = t.token.releases waiting := by
  obtain ⟨p, t⟩ := t
  cases t with
  | operator op => exact decide_eq_decide.2 (hgrade op waiting (ht op rfl) hwaiting)
  | _ => rfl

theorem receive_regrade (m : Machine) (t : PlacedToken) :
    (m.regrade grade).receive (t.regrade grade) = regraded grade (m.receive t) := by
  obtain ⟨p, t⟩ := t
  cases t with
  | closing =>
    obtain ⟨pending, w⟩ := m
    match pending with
    | [] | .opening _ :: _ | .operator _ _ :: _ => rfl
  | _ => rfl

/-- Taking a token commutes with other precedences in the same order. -/
theorem step_regrade (hgrade : Ordered grade among) (hm : m.Holds (·.IsAmong among))
    {t : PlacedToken} (ht : t.IsAmong among) :
    (m.regrade grade).step (t.regrade grade) = regraded grade (m.step t) := by
  have hsettle : (m.regrade grade).settle (t.token.regrade grade).releases =
      regraded grade (m.settle t.token.releases) :=
    settle_regrade (fun op p hmem => releases_regrade hgrade ht (hm.among_of_mem hmem)) m.workings
  rw [step_eq, step_eq]
  show ((m.regrade grade).settle (t.token.regrade grade).releases).bind _ = _
  rw [hsettle]
  exact regraded_bind fun m' _ => receive_regrade m' t

/-- Taking tokens commutes with other precedences in the same order. -/
theorem steps_regrade (hgrade : Ordered grade among) (hm : m.Holds (·.IsAmong among))
    {ts : List PlacedToken} (hts : ∀ t ∈ ts, t.IsAmong among) :
    (m.regrade grade).steps (ts.map (·.regrade grade)) = regraded grade (m.steps ts) := by
  induction ts generalizing m with
  | nil => rfl
  | cons t ts ih =>
    have ht := hts t List.mem_cons_self
    rw [List.map_cons, steps_cons, steps_cons, step_regrade hgrade hm ht]
    refine regraded_bind fun m' hm' => ih ?_ fun u hu => hts u (List.mem_cons_of_mem t hu)
    have hkeeps := keeps_step hm ht
    rwa [hm'] at hkeeps

theorem drain_regrade (m : Machine) : (m.regrade grade).drain = regraded grade m.drain := by
  have hsettle : ((m.regrade grade).settle fun _ => true) =
      regraded grade (m.settle fun _ => true) :=
    settle_regrade (fun _ _ _ => rfl) m.workings
  rw [drain, drain, hsettle]
  refine regraded_bind fun m' _ => ?_
  obtain ⟨pending, w⟩ := m'
  match pending with
  | [] | .opening _ :: _ | .operator _ _ :: _ => rfl

/-- The end of a run commutes with other precedences. -/
theorem stop_regrade (m : Machine) (fault? : Option EvaluationError) :
    Run.ofEnding ((m.regrade grade).stop fault?) =
      (Run.ofEnding (m.stop fault?)).regrade grade := by
  cases fault? with
  | some e => rfl
  | none =>
    show Run.ofEnding (m.regrade grade).finish = (Run.ofEnding m.finish).regrade grade
    rw [finish_eq, finish_eq, drain_regrade]
    cases m.drain with
    | error halt => rfl
    | ok m' =>
      obtain ⟨pending, operands, applied⟩ := m'
      match operands with
      | [] | [_] | _ :: _ :: _ => rfl

end Machine

/-! ### Calculators alike on a text -/

/-- The second calculator is like the first on a text: it has the same numerals and knows the same
operators among the characters, by symbol and function, and where two of them stand in the text
their precedences are in the same order. -/
structure Calculator.Alike (c c' : Calculator) (cs : List Char) : Prop where
  /-- The numerals are the same. -/
  numerals : c'.numerals = c.numerals
  /-- A character is an operator of both, with the same function, or of neither. -/
  apply : ∀ ch ∈ cs,
    (c'.operators.find? ch).map Operator.apply = (c.operators.find? ch).map Operator.apply
  /-- Two operators of the text are in the same order of precedence. -/
  order : ∀ ch ∈ cs, ∀ dh ∈ cs, ∀ op ∈ c.operators.find? ch, ∀ op' ∈ c'.operators.find? ch,
    ∀ od ∈ c.operators.find? dh, ∀ od' ∈ c'.operators.find? dh,
      (od'.precedence ≤ op'.precedence ↔ od.precedence ≤ op.precedence)

namespace Calculator

variable {c c' : Calculator} {cs : List Char}

/-- The precedence that the operators of a calculator have for the symbol of an operator. -/
def gradeOf (c : Calculator) (op : Operator) : Nat :=
  ((c.operators.find? op.symbol).map Operator.precedence).getD op.precedence

theorem gradeOf_eq {op op' : Operator} (h : c.operators.find? op.symbol = some op') :
    c.gradeOf op = op'.precedence := by
  rw [gradeOf, h]
  rfl

/-- An operator of a calculator, found for a character of the text. -/
def Occurs (c : Calculator) (cs : List Char) (op : Operator) : Prop :=
  op.symbol ∈ cs ∧ c.operators.find? op.symbol = some op

namespace Alike

/-- What the second calculator finds for a character of the text is what the first one finds, with
its own precedence. -/
theorem find?_eq (h : c.Alike c' cs) {ch : Char} (hch : ch ∈ cs) :
    c'.operators.find? ch = (c.operators.find? ch).map (·.regrade c'.gradeOf) := by
  have happly := h.apply ch hch
  cases hop : c.operators.find? ch with
  | none =>
    rw [hop] at happly
    exact Option.map_eq_none_iff.1 happly
  | some op =>
    rw [hop] at happly
    obtain ⟨op', hop', hfun⟩ := Option.map_eq_some_iff.1 happly
    obtain ⟨-, rfl⟩ := OperatorTable.find?_eq_some_iff.1 hop
    obtain ⟨-, hsymbol⟩ := OperatorTable.find?_eq_some_iff.1 hop'
    rw [hop', Option.map_some, Operator.regrade, gradeOf_eq hop', ← hsymbol, ← hfun]

/-- The operators of the text are graded by the second calculator in the order of their
precedences. -/
theorem ordered (h : c.Alike c' cs) : Ordered c'.gradeOf (c.Occurs cs) := by
  intro op waiting ⟨hmem, hop⟩ ⟨hmem', hwaiting⟩
  have hgrade {o : Operator} (ho : c.Occurs cs o) :
      c'.operators.find? o.symbol = some (o.regrade c'.gradeOf) := by
    rw [h.find?_eq ho.1, ho.2]
    rfl
  exact h.order _ hmem' _ hmem waiting hwaiting _ (hgrade ⟨hmem', hwaiting⟩) op hop _
    (hgrade ⟨hmem, hop⟩)

end Alike

/-- At the start of a text the second calculator reads what the first one reads. -/
theorem readToken_regrade (hn : c'.numerals = c.numerals) {ch : Char}
    (hch : c'.operators.find? ch = (c.operators.find? ch).map (·.regrade grade)) (cs : List Char) :
    c'.readToken ch cs = (c.readToken ch cs).map fun r => (r.1.regrade grade, r.2) := by
  unfold readToken
  rw [hn, hch]
  split
  · rfl
  split
  · rfl
  split
  · rfl
  cases c.operators.find? ch with
  | some op => rfl
  | none =>
    show (if c.numerals.isDigit ch = true then _ else _) = Except.map _ (if _ then _ else _)
    split
    · dsimp only
      cases c.numerals.read? (String.ofList (ch :: cs.takeWhile c.numerals.isDigit)) <;> rfl
    · rfl

/-- The second calculator reads the tokens of the first and stops where it stops. -/
theorem scan_regrade (hn : c'.numerals = c.numerals)
    (h : ∀ ch ∈ cs, c'.operators.find? ch = (c.operators.find? ch).map (·.regrade grade)) :
    c'.scan cs = ⟨(c.scan cs).tokens.map (·.regrade grade), (c.scan cs).fault?⟩ := by
  induction cs using scan.induct c with
  | case1 => rw [scan_nil, scan_nil, List.map_nil]
  | case2 ch cs t rest hread _ ih =>
    have hread' := readToken_regrade hn (h ch List.mem_cons_self) cs
    rw [hread] at hread'
    have hrest : ∀ d ∈ rest, d ∈ ch :: cs := fun d hd =>
      (readToken_eq_ok hread).1 ▸ List.mem_append_right _ hd
    rw [scan_cons_of_ok hread, scan_cons_of_ok hread', ih fun d hd => h d (hrest d hd)]
    rfl
  | case3 ch cs fault hread =>
    have hread' := readToken_regrade hn (h ch List.mem_cons_self) cs
    rw [hread] at hread'
    rw [scan_cons_of_error hread, scan_cons_of_error hread', List.map_nil]

/-- An operator that is read is one that occurs in the text. -/
theorem occurs_of_mem_place {t : PlacedToken} (h : t ∈ Token.place 0 (c.scan cs).tokens) :
    t.IsAmong (c.Occurs cs) := by
  obtain ⟨p, _⟩ := t
  rintro op rfl
  obtain ⟨xs, ys, hts, -⟩ := Token.mem_place_iff.1 h
  obtain ⟨left, htext, -⟩ := c.scan_eq cs
  have hmem : Token.operator op ∈ (c.scan cs).tokens :=
    hts ▸ List.mem_append_right _ List.mem_cons_self
  refine ⟨?_, OperatorTable.find?_eq_some_iff.2 ⟨admits_of_mem_scan hmem, rfl⟩⟩
  rw [← htext]
  exact List.mem_append_left _ (List.mem_flatMap.2 ⟨_, hmem, List.mem_singleton.2 rfl⟩)

/-- The run of the second calculator is the run of the first with other precedences. -/
theorem Alike.compute_eq (h : c.Alike c' cs) :
    c'.compute cs = (c.compute cs).regrade c'.gradeOf := by
  have hscan := scan_regrade h.numerals fun ch hch => h.find?_eq hch
  have hfault : c'.faultOf cs = c.faultOf cs := by
    rw [faultOf, faultOf, hscan, Token.textOf_map_regrade]
  have hsteps : (Machine.empty.regrade c'.gradeOf).steps (Token.place 0 (c'.scan cs).tokens) =
      regraded c'.gradeOf (Machine.empty.steps (Token.place 0 (c.scan cs).tokens)) := by
    rw [hscan, Token.place_map_regrade]
    exact Machine.steps_regrade h.ordered (fun e he => absurd he List.not_mem_nil)
      fun t ht => occurs_of_mem_place ht
  have hempty : Machine.empty.regrade c'.gradeOf = .empty := rfl
  rw [hempty] at hsteps
  rw [Calculator.compute_eq, Calculator.compute_eq, hfault, hsteps]
  cases Machine.empty.steps (Token.place 0 (c.scan cs).tokens) with
  | error halt => rfl
  | ok m => exact m.stop_regrade (c.faultOf cs)

/-- Calculators alike on a text give it the same value and tell the same events. -/
theorem Alike.value_eq {s : String} (h : c.Alike c' s.toList) : c'.value s = c.value s := by
  rw [value, value, h.compute_eq]
  rfl

/-- So do they give it the same numeral. -/
theorem Alike.evaluate_eq {s : String} (h : c.Alike c' s.toList) :
    c'.evaluate s = c.evaluate s := by
  rw [evaluate, evaluate, h.value_eq, h.numerals]

/-! ### More operators, and other precedences -/

/-- A calculator with the operators of another, and more that do not occur in the text, is like
it. -/
theorem alike_of_unused (hn : c'.numerals = c.numerals)
    (hold : ∀ op ∈ c.operators.toList, op ∈ c'.operators.toList)
    (hnew : ∀ op ∈ c'.operators.toList, op ∈ c.operators.toList ∨ op.symbol ∉ cs) :
    c.Alike c' cs := by
  have hfind {ch : Char} (hch : ch ∈ cs) : c'.operators.find? ch = c.operators.find? ch := by
    cases hop : c.operators.find? ch with
    | some op =>
      obtain ⟨hmem, hsymbol⟩ := OperatorTable.find?_eq_some_iff.1 hop
      exact OperatorTable.find?_eq_some_iff.2 ⟨hold op hmem, hsymbol⟩
    | none =>
      rw [find?_eq_none_iff] at hop ⊢
      rintro op hmem rfl
      rcases hnew op hmem with hmem | hunused
      · exact hop op hmem rfl
      · exact hunused hch
  refine ⟨hn, fun ch hch => by rw [hfind hch], ?_⟩
  intro ch hch dh hdh op hop op' hop' od hod od' hod'
  rw [hfind hch] at hop'
  rw [hfind hdh] at hod'
  rw [Option.mem_unique hop' hop, Option.mem_unique hod' hod]

/-- A calculator with other precedences in the same order is like it on every text. -/
theorem alike_of_renumbered {number : Nat → Nat} (hn : c'.numerals = c.numerals)
    (hops : c'.operators.toList =
      c.operators.toList.map (·.regrade fun op => number op.precedence))
    (horder : ∀ op ∈ c.operators.toList, ∀ waiting ∈ c.operators.toList,
      (number op.precedence ≤ number waiting.precedence ↔ op.precedence ≤ waiting.precedence)) :
    c.Alike c' cs := by
  have hfind (ch : Char) : c'.operators.find? ch =
      (c.operators.find? ch).map (·.regrade fun op => number op.precedence) := by
    rw [OperatorTable.find?, hops, List.find?_map]
    rfl
  refine ⟨hn, fun ch _ => ?_, ?_⟩
  · rw [hfind, Option.map_map]
    rfl
  · intro ch _ dh _ op hop op' hop' od hod od' hod'
    rw [hfind, hop] at hop'
    rw [hfind, hod] at hod'
    rw [← Option.some.inj hop', ← Option.some.inj hod']
    exact horder od (OperatorTable.find?_eq_some_iff.1 hod).1 op
      (OperatorTable.find?_eq_some_iff.1 hop).1

/-- **Only the order of precedence counts, and only of operators that occur.** Calculators that
know the same operators among the characters of a text, and have them in the same order of
precedence, give the text the same value or the same fault, and the same numeral, and tell the
same events. So operators that do not occur in a text can be added, and all precedences renumbered
in their order. -/
theorem value_alike (c c' : Calculator) :
    (∀ s : String, c.Alike c' s.toList →
      c'.value s = c.value s ∧ c'.evaluate s = c.evaluate s) ∧
    (∀ s : String, c'.numerals = c.numerals →
      (∀ op ∈ c.operators.toList, op ∈ c'.operators.toList) →
      (∀ op ∈ c'.operators.toList, op ∈ c.operators.toList ∨ op.symbol ∉ s.toList) →
      c'.value s = c.value s ∧ c'.evaluate s = c.evaluate s) ∧
    ∀ number : Nat → Nat, c'.numerals = c.numerals →
      c'.operators.toList = c.operators.toList.map (·.regrade fun op => number op.precedence) →
      (∀ op ∈ c.operators.toList, ∀ waiting ∈ c.operators.toList,
        (number op.precedence ≤ number waiting.precedence ↔
          op.precedence ≤ waiting.precedence)) →
      ∀ s : String, c'.value s = c.value s ∧ c'.evaluate s = c.evaluate s := by
  have hsame {s : String} (h : c.Alike c' s.toList) :
      c'.value s = c.value s ∧ c'.evaluate s = c.evaluate s := ⟨h.value_eq, h.evaluate_eq⟩
  refine ⟨fun s h => hsame h, fun s hn hold hnew => ?_, fun number hn hops horder s => ?_⟩
  · exact hsame (alike_of_unused hn hold hnew)
  · exact hsame (alike_of_renumbered hn hops horder)

/-- With a quotient more, the operators in another order, and precedences seven, eight and nine, the
text `X-V*I-I` is worth four as before, and so it is with precedences three times as high. -/
theorem value_alike_roman :
    let quotient : Operator := ⟨'/', 8, Arithmetic.quotient?⟩
    let nine : Calculator :=
      { operators :=
          { toList := [{ Operator.mul with precedence := 9 }, quotient,
              { Operator.sub with precedence := 7 }, { Operator.add with precedence := 7 }]
            ne_nil := by simp
            unreserved := by decide
            nodup := by decide }
        numerals := .roman
        apart := by decide }
    let more : Calculator :=
      { operators :=
          { toList := [quotient, .add, .sub, .mul]
            ne_nil := by simp
            unreserved := by decide
            nodup := by decide }
        numerals := .roman
        apart := by decide }
    let thrice : Calculator :=
      { operators :=
          { toList := roman.operators.toList.map (·.regrade fun op => 3 * op.precedence)
            ne_nil := by simp [roman, OperatorTable.standard]
            unreserved := by decide
            nodup := by decide }
        numerals := .roman
        apart := by decide }
    roman.Alike nine "X-V*I-I".toList ∧ (roman.value "X-V*I-I").outcome = .ok 4 ∧
      nine.value "X-V*I-I" = roman.value "X-V*I-I" ∧
      more.value "X-V*I-I" = roman.value "X-V*I-I" ∧
      thrice.value "X-V*I-I" = roman.value "X-V*I-I" := by
  intro quotient nine more thrice
  have htext : "X-V*I-I".toList = ['X', '-', 'V', '*', 'I', '-', 'I'] := by decide
  have halike : roman.Alike nine "X-V*I-I".toList := by
    rw [htext]
    refine ⟨rfl, ?_, ?_⟩
    · simp only [List.forall_mem_cons]
      exact ⟨rfl, rfl, rfl, rfl, rfl, rfl, rfl, fun ch hch => absurd hch List.not_mem_nil⟩
    · -- the precedences of the second calculator are those of the first, doubled, and five more
      have hgrade {ch : Char} {op op' : Operator} (hop : roman.operators.find? ch = some op)
          (hop' : nine.operators.find? ch = some op') :
          op'.precedence = 2 * op.precedence + 5 := by
        obtain ⟨hmem, rfl⟩ := OperatorTable.find?_eq_some_iff.1 hop
        rcases List.mem_cons.1 hmem with rfl | hmem
        · cases hop'; rfl
        rcases List.mem_cons.1 hmem with rfl | hmem
        · cases hop'; rfl
        · obtain rfl := List.mem_singleton.1 hmem
          cases hop'; rfl
      intro ch _ dh _ op hop op' hop' od hod od' hod'
      rw [hgrade hop hop', hgrade hod hod']
      omega
  have hscan : roman.scan "X-V*I-I".toList =
      ⟨[.numeral ['X'] 10, .operator .sub, .numeral ['V'] 5, .operator .mul, .numeral ['I'] 1,
        .operator .sub, .numeral ['I'] 1], none⟩ := by
    cbv
  have hold : ∀ op ∈ roman.operators.toList, op ∈ more.operators.toList := fun op hop =>
    List.mem_cons_of_mem quotient hop
  have hnew : ∀ op ∈ more.operators.toList,
      op ∈ roman.operators.toList ∨ op.symbol ∉ "X-V*I-I".toList := by
    intro op hop
    rcases List.mem_cons.1 hop with rfl | hop
    · exact .inr (by decide)
    · exact .inl hop
  refine ⟨halike, outcome_of_scan hscan, ((value_alike roman nine).1 _ halike).1,
    ((value_alike roman more).2.1 _ rfl hold hnew).1,
    ((value_alike roman thrice).2.2 (fun n => 3 * n) rfl rfl (fun op _ waiting _ => ?_) _).1⟩
  exact Nat.mul_le_mul_left_iff (by decide)

end Calculator

end Abacus
