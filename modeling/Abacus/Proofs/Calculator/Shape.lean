import Abacus.Proofs.Calculator.Matching
import Mathlib.Data.Finset.Card

/-!
# The shape of the stack

What waits on the stack of a machine between two tokens (`Calculator.stack_shape`). The entries
stand in the order they were read in. Between two brackets the operators bind the more tightly
the higher they stand, for one that binds no more tightly than those below it makes them leave
before it comes. So a group has no more entries than there are precedences, and the height of the
stack is bounded by the brackets that are open and the precedences of the table, however long the
text is (`Pending.Rises.length_le`).

A step keeps the order and the rise (`Shaped.step`), so a run does; that the brackets on the
stack are those left open is part of the accounts of a machine.
-/

namespace Abacus

/-- The precedences of the operators. -/
def OperatorTable.precedences (t : OperatorTable) : Finset Nat :=
  (t.toList.map Operator.precedence).toFinset

namespace Pending

/-- The number of bytes before the token that waits as the entry. -/
def position (e : Pending) : Nat := e.token.position

/-- The entry that an operator is at its position. -/
def ofOperator (o : Operator × Nat) : Pending := .operator o.1 o.2

/-- If both entries are operators, the one above binds more tightly than the one below. -/
def Tighter : Pending → Pending → Prop
  | .operator upper _, .operator lower _ => lower.precedence < upper.precedence
  | _, _ => True

/-- Every operator binds more tightly than one right below it. -/
def Rises (pending : List Pending) : Prop := pending.IsChain Tighter

/-! ### The height -/

section Height

variable {below pending : List Pending} {row : List (Operator × Nat)} {precedences : Finset Nat}

/-- In a row of operators without a bracket between them every one binds more tightly than all
below it. -/
theorem Rises.pairwise (h : Rises (row.map ofOperator ++ below)) :
    row.Pairwise fun upper lower => lower.1.precedence < upper.1.precedence := by
  have hrow : (row.map ofOperator).IsChain Tighter := h.left_of_append
  rw [List.isChain_map] at hrow
  have hgrades : (row.map fun o => o.1.precedence).IsChain (· > ·) := by
    rw [List.isChain_map]
    exact hrow
  exact List.pairwise_map.1 (List.isChain_iff_pairwise.1 hgrades)

/-- A row of operators without a bracket between them has no more of them than there are
precedences. -/
theorem Rises.length_row_le (h : Rises (row.map ofOperator ++ below))
    (hrow : ∀ o ∈ row, o.1.precedence ∈ precedences) : row.length ≤ precedences.card := by
  have hnodup : (row.map fun o => o.1.precedence).Nodup :=
    List.pairwise_map.2 (h.pairwise.imp fun hlt => (Nat.ne_of_lt hlt).symm)
  calc row.length = (row.map fun o => o.1.precedence).toFinset.card := by
        rw [List.toFinset_card_of_nodup hnodup, List.length_map]
    _ ≤ precedences.card := Finset.card_le_card fun g hg => by
        obtain ⟨o, ho, rfl⟩ := List.mem_map.1 (List.mem_toFinset.1 hg)
        exact hrow o ho

/-- With the row of operators on top that is looked at so far, a stack has no more entries than
its brackets and, for every group, the precedences there are. -/
theorem Rises.length_append_le (h : Rises (row.map ofOperator ++ pending))
    (hrow : ∀ o ∈ row, o.1.precedence ∈ precedences)
    (hpending : ∀ op p, .operator op p ∈ pending → op.precedence ∈ precedences) :
    row.length + pending.length ≤ (pending.filterMap opening?).length +
      ((pending.filterMap opening?).length + 1) * precedences.card := by
  induction pending generalizing row with
  | nil =>
    simpa using h.length_row_le hrow
  | cons e pending ih =>
    have hrest : ∀ op p, .operator op p ∈ pending → op.precedence ∈ precedences :=
      fun op p hop => hpending op p (List.mem_cons_of_mem e hop)
    cases e with
    | operator op p =>
      have hsnoc : Rises ((row ++ [(op, p)]).map ofOperator ++ pending) := by
        simpa [ofOperator] using h
      have hrow' : ∀ o ∈ row ++ [(op, p)], o.1.precedence ∈ precedences := by
        intro o ho
        rcases List.mem_append.1 ho with ho | ho
        · exact hrow o ho
        · rw [List.mem_singleton.1 ho]
          exact hpending op p List.mem_cons_self
      have hle := ih hsnoc hrow' hrest
      rw [List.length_append, List.length_singleton] at hle
      rw [List.length_cons, List.filterMap_cons_none rfl]
      omega
    | opening p =>
      -- the row ends, and the next one begins below the bracket
      have hlen := h.length_row_le hrow
      have hbelow : Rises (([] : List (Operator × Nat)).map ofOperator ++ pending) :=
        h.suffix ⟨row.map ofOperator ++ [.opening p], by simp⟩
      have hle := ih hbelow (fun _ ho => absurd ho List.not_mem_nil) hrest
      rw [List.length_cons, List.filterMap_cons_some (f := opening?) rfl, List.length_cons,
        Nat.succ_mul]
      rw [List.length_nil] at hle
      omega

/-- A stack has no more entries than its brackets and, for every group, the precedences there
are. -/
theorem Rises.length_le (h : Rises pending)
    (hpending : ∀ op p, .operator op p ∈ pending → op.precedence ∈ precedences) :
    pending.length ≤ (pending.filterMap opening?).length +
      ((pending.filterMap opening?).length + 1) * precedences.card := by
  have hrow : Rises (([] : List (Operator × Nat)).map ofOperator ++ pending) := h
  have hle := hrow.length_append_le (fun _ ho => absurd ho List.not_mem_nil) hpending
  rwa [List.length_nil, Nat.zero_add] at hle

end Height

end Pending

/-! ### Along a run -/

open Pending

/-- The shape of the stack of a machine that has read the row. -/
structure Shaped (m : Machine) (read : List PlacedToken) : Prop where
  /-- What waits was read, the topmost last. -/
  order : (m.pending.map Pending.token).reverse.Sublist read
  /-- Between two brackets the operators bind the more tightly the higher they stand. -/
  rises : Rises m.pending

theorem shaped_empty : Shaped .empty [] := ⟨.slnil, .nil⟩

namespace Shaped

variable {m m' : Machine} {read : List PlacedToken} {t : PlacedToken}

/-- What is left when entries on top leave keeps the shape, also when more has been read. -/
theorem of_suffix (h : Shaped m read) (hm : m'.pending <:+ m.pending) (ts : List PlacedToken) :
    Shaped m' (read ++ ts) :=
  ⟨((hm.sublist.map Pending.token).reverse.trans h.order).trans (List.sublist_append_left read ts),
    h.rises.suffix hm⟩

/-- A token that waits goes on top. -/
theorem push (h : Shaped m read) {e : Pending} (he : e.token = t)
    (htop : ∀ lower ∈ m.pending.head?, e.Tighter lower) : Shaped (m.push e) (read ++ [t]) := by
  refine ⟨?_, List.isChain_cons.2 ⟨htop, h.rises⟩⟩
  rw [Machine.push, List.map_cons, List.reverse_cons, he]
  exact h.order.append (List.Sublist.refl [t])

/-- Settling leaves what is below the operators that are due. -/
theorem settle (h : Shaped m read) {due : Operator → Bool} (hm : m.settle due = .ok m') :
    Shaped m' read ∧ ∀ e ∈ m'.pending.head?, e.isDue due = false := by
  have hpending := pending_of_settle hm
  have hsuffix : m'.pending <:+ m.pending := hpending ▸ List.dropWhile_suffix _
  refine ⟨by simpa using h.of_suffix hsuffix [], fun e he => ?_⟩
  have hhead := List.head?_dropWhile_not (Pending.isDue due) m.pending
  rw [← hpending, he] at hhead
  exact hhead

/-- A token is taken when nothing on top is due. -/
theorem receive (h : Shaped m read)
    (hhead : ∀ e ∈ m.pending.head?, e.isDue t.token.releases = false)
    (hm : m.receive t = .ok m') : Shaped m' (read ++ [t]) := by
  obtain ⟨p, t⟩ := t
  cases t with
  | blank | numeral =>
    cases hm
    refine h.of_suffix ?_ _
    exact List.suffix_rfl
  | opening =>
    cases hm
    exact h.push rfl fun _ _ => trivial
  | operator op =>
    cases hm
    refine h.push rfl fun lower hlower => ?_
    cases lower with
    | opening => trivial
    | operator waiting =>
      have hdue : decide (op.precedence ≤ waiting.precedence) = false := hhead _ hlower
      exact Nat.lt_of_not_le (of_decide_eq_false hdue)
  | closing =>
    simp only [Machine.receive, Machine.close] at hm
    split at hm
    · next q rest hpending =>
      cases hm
      refine h.of_suffix ?_ _
      exact ⟨[.opening q], hpending.symm⟩
    · cases hm

theorem step (h : Shaped m read) (hm : m.step t = .ok m') : Shaped m' (read ++ [t]) := by
  rw [Machine.step_eq] at hm
  obtain ⟨m₁, hsettle, hreceive⟩ := bind_eq_ok.1 hm
  obtain ⟨h₁, hhead⟩ := h.settle hsettle
  exact h₁.receive hhead hreceive

theorem steps (h : Shaped m read) {ts : List PlacedToken} (hm : m.steps ts = .ok m') :
    Shaped m' (read ++ ts) := by
  induction ts generalizing m read with
  | nil =>
    cases hm
    rwa [List.append_nil]
  | cons t ts ih =>
    obtain ⟨m₁, hstep, hsteps⟩ := bind_eq_ok.1 hm
    have hts := ih (h.step hstep) hsteps
    rwa [List.append_assoc] at hts

end Shaped

/-- A bracket waits on the stack if its position is among those of the brackets there. -/
theorem Pending.opening_mem_iff {pending : List Pending} {p : Nat} :
    .opening p ∈ pending ↔ p ∈ pending.filterMap opening? := by
  rw [List.mem_filterMap]
  constructor
  · exact fun h => ⟨_, h, rfl⟩
  · rintro ⟨e, he, hp⟩
    cases e with
    | opening q =>
      obtain rfl := Option.some.inj hp
      exact he
    | operator op q => cases hp

namespace Calculator

/-- What waits as an operator is one of the table. -/
theorem precedence_mem_of_shaped {c : Calculator} {m : Machine} {ts : List Token}
    (h : Shaped m (Token.place 0 ts)) (hts : ∀ t ∈ ts, c.Admits t) {op : Operator} {p : Nat}
    (hop : .operator op p ∈ m.pending) : op.precedence ∈ c.operators.precedences := by
  have hmem : (Pending.operator op p).token ∈ Token.place 0 ts :=
    h.order.subset (List.mem_reverse.2 (List.mem_map_of_mem hop))
  obtain ⟨xs, ys, rfl, -⟩ := Token.mem_place_iff.1 hmem
  have hadmits : op ∈ c.operators.toList := hts (.operator op) (by simp [Pending.token])
  exact List.mem_toFinset.2 (List.mem_map_of_mem hadmits)

/-- **The shape of the stack.** Between two tokens of a text the positions of the entries rise to
the top of the stack, and so do the precedences of the operators between two brackets. The
brackets on the stack are those that the text read so far leaves open, and the stack has no more
entries than these brackets and, for every group, the precedences there are. -/
theorem stack_shape (c : Calculator) (expression : String) (ts us : List Token) (m : Machine)
    (hts : (c.scan expression.toList).tokens = ts ++ us)
    (hm : Machine.empty.steps (Token.place 0 ts) = .ok m) :
    let read := Token.place 0 ts
    let depth := (Token.unclosed read).length
    Token.textOf ts <+: expression.toList ∧
      (m.pending.map Pending.token).reverse.Sublist read ∧
      (m.pending.map Pending.position).Pairwise (· > ·) ∧
      (∀ (above below : List Pending) (row : List (Operator × Nat)),
        m.pending = above ++ row.map ofOperator ++ below →
        row.Pairwise fun upper lower => lower.1.precedence < upper.1.precedence) ∧
      m.pending.filterMap Pending.opening? = Token.unclosed read ∧
      (c.numerals.Bracketless →
        (∀ p, .opening p ∈ m.pending ↔ Text.Unclosed (Token.textOf ts) p) ∧
          Text.openings (Token.textOf ts) = Text.closings (Token.textOf ts) + depth) ∧
      m.pending.length ≤ depth + (depth + 1) * c.operators.precedences.card := by
  intro read depth
  have hshaped : Shaped m read := shaped_empty.steps hm
  have haccounts : Accounts m read := accounts_empty.steps hm
  have hplaced : ∀ t ∈ ts, t ∈ (c.scan expression.toList).tokens :=
    fun t ht => hts ▸ List.mem_append_left us ht
  refine ⟨?_, hshaped.order, ?_, fun above below row hrow => ?_, haccounts.openings, fun hc => ?_,
    ?_⟩
  · obtain ⟨rest, htext, -⟩ := c.scan_eq expression.toList
    rw [hts, Token.textOf_append, List.append_assoc] at htext
    exact ⟨_, htext⟩
  · have hread := (Token.pairwise_position_place 0 fun t ht =>
      text_ne_nil_of_mem_scan (hplaced t ht)).sublist hshaped.order
    rw [List.pairwise_reverse, List.pairwise_map] at hread
    exact List.pairwise_map.2 hread
  · rw [List.append_assoc] at hrow
    exact Rises.pairwise (hshaped.rises.suffix ⟨above, hrow.symm⟩)
  · have hplain : ∀ t ∈ ts, t.Plain := fun t ht => plain_of_mem_scan hc (hplaced t ht)
    constructor
    · intro p
      rw [opening_mem_iff, haccounts.openings, Token.mem_unclosed_place hplain]
      simp only [Nat.zero_add, exists_eq_right']
    · have hcount := (Token.nesting_place 0 hplain).1
      rwa [haccounts.unopened, Nat.add_zero] at hcount
  · have hlen := hshaped.rises.length_le fun op p hop =>
      precedence_mem_of_shaped hshaped (fun t ht => admits_of_mem_scan (hplaced t ht)) hop
    rwa [haccounts.openings] at hlen

/-- In `I+I*(I+I*I` every group has an operator of every precedence, and the stack is as high as it
can be. -/
theorem stack_shape_roman :
    ∃ ts m, (roman.scan "I+I*(I+I*I".toList).tokens = ts ++ [] ∧
      Machine.empty.steps (Token.place 0 ts) = .ok m ∧
      m.pending.map Pending.position = [8, 6, 4, 3, 1] ∧
      (m.pending.map Pending.position).Pairwise (· > ·) ∧
      Text.Unclosed (Token.textOf ts) 4 ∧
      m.pending.length = 1 + (1 + 1) * roman.operators.precedences.card ∧
      m.pending.length ≤ (Token.unclosed (Token.place 0 ts)).length +
        ((Token.unclosed (Token.place 0 ts)).length + 1) * roman.operators.precedences.card := by
  let one : Token := .numeral ['I'] 1
  let ts : List Token := [one, .operator .add, one, .operator .mul, .opening, one, .operator .add,
    one, .operator .mul, one]
  let m : Machine := ⟨[.operator .mul 8, .operator .add 6, .opening 4, .operator .mul 3,
    .operator .add 1], ⟨[1, 1, 1, 1, 1], []⟩⟩
  have hscan : roman.scan "I+I*(I+I*I".toList = ⟨ts, none⟩ := by cbv
  have hts : (roman.scan "I+I*(I+I*I".toList).tokens = ts ++ [] := by rw [hscan, List.append_nil]
  have hm : Machine.empty.steps (Token.place 0 ts) = .ok m := rfl
  obtain ⟨-, -, hpositions, -, -, hbrackets, hlen⟩ := roman.stack_shape "I+I*(I+I*I" ts [] m hts hm
  have hopen := ((hbrackets ⟨rfl, rfl⟩).1 4).1 (by simp [m])
  exact ⟨ts, m, hts, hm, rfl, hpositions, hopen, by decide, hlen⟩

end Calculator

end Abacus
