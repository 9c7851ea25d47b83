import Abacus.Proofs.Calculator.Lexing

/-!
# How far a scan comes

What a scan reads and where it stops, for any numerals, also those written with characters that
mean something else.

The tokens read are admitted and take up room, the scan stops only where no token can be read
(`Blocks`), and it reads the same tokens if the text ends where it stopped
(`scan_textOf_scan`): the fault it stops at is the first one.
-/

namespace Abacus

namespace Calculator

variable {c : Calculator}

/-! ### What is read -/

theorem Lexes.admits {cs : List Char} {ts : List Token} {fault? : Option ScanFault}
    (h : c.Lexes cs ts fault?) : ∀ t ∈ ts, c.Admits t := by
  induction h with
  | token ht _ _ ih =>
    intro t h
    rcases List.mem_cons.1 h with rfl | h
    · exact ht
    · exact ih t h
  | _ => exact fun t h => absurd h List.not_mem_nil

theorem admits_of_mem_scan {cs : List Char} {t : Token} (h : t ∈ (c.scan cs).tokens) :
    c.Admits t :=
  (c.lexes_scan cs).admits t h

/-- A token that is admitted takes up room. -/
theorem text_ne_nil_of_admits {t : Token} (h : c.Admits t) : t.text ≠ [] := by
  cases t with
  | numeral ds v => exact h.1.1
  | _ => exact List.cons_ne_nil _ _

/-- A token that is read takes up room. -/
theorem text_ne_nil_of_mem_scan {cs : List Char} {t : Token} (h : t ∈ (c.scan cs).tokens) :
    t.text ≠ [] :=
  text_ne_nil_of_admits (admits_of_mem_scan h)

/-- If nothing is wrong, the tokens are all of the text. -/
theorem textOf_scan {cs : List Char} (h : (c.scan cs).fault? = none) :
    Token.textOf (c.scan cs).tokens = cs := by
  obtain ⟨rest, htext, hrest⟩ := c.scan_eq cs
  rwa [hrest h, List.append_nil] at htext

/-! ### Where it stops -/

/-- No token can be read at the start of the text, and the fault says why: the first character
means nothing, or it begins a run of digits that is no numeral. -/
def Blocks (c : Calculator) (cs : List Char) : ScanFault → Prop
  | .unknownCharacter ch => c.IsUnknown ch ∧ cs.head? = some ch
  | .invalidNumeral ds =>
    c.IsRun ds ∧ (∀ d ∈ ds.head?, isReserved d = false) ∧
      c.numerals.read? (String.ofList ds) = none ∧ ∃ rest, ds ++ rest = cs ∧ c.Stops rest

theorem blocks_of_readToken {ch : Char} {cs : List Char} {fault : ScanFault}
    (h : c.readToken ch cs = .error fault) : c.Blocks (ch :: cs) fault := by
  have hr : isReserved ch = false := by
    rw [not_isReserved_iff]
    unfold readToken at h
    split at h
    · cases h
    next hb =>
    split at h
    · cases h
    next ho =>
    split at h
    · cases h
    next hcl => exact ⟨by simpa using hb, ho, hcl⟩
  rw [readToken_of_not_isReserved hr] at h
  split at h
  · cases h
  next hop =>
  split at h
  · next hd =>
    split at h
    · cases h
    · next hv =>
      cases h
      refine ⟨isRun_takeWhile hd cs, fun d hd' => ?_, hv, _, ?_, c.stops_dropWhile cs⟩
      · obtain rfl : ch = d := by simpa using hd'
        exact hr
      · rw [List.cons_append, List.takeWhile_append_dropWhile]
  · next hd =>
    cases h
    exact ⟨⟨hr, (find?_eq_none_iff _ _).1 hop, by simpa using hd⟩, rfl⟩

/-- Where the scan stops no token can be read. -/
theorem blocks_of_scan {cs : List Char} {fault : ScanFault} (h : (c.scan cs).fault? = some fault) :
    ∃ rest, Token.textOf (c.scan cs).tokens ++ rest = cs ∧ c.Blocks rest fault := by
  induction cs using scan.induct c with
  | case1 =>
    rw [scan_nil] at h
    cases h
  | case2 ch cs t rest hread _ ih =>
    rw [scan_cons_of_ok hread] at h ⊢
    obtain ⟨left, hleft, hblocks⟩ := ih h
    refine ⟨left, ?_, hblocks⟩
    rw [Scan.cons, Token.textOf_cons, List.append_assoc, hleft, (readToken_eq_ok hread).1]
  | case3 ch cs fault' hread =>
    rw [scan_cons_of_error hread] at h ⊢
    cases h
    exact ⟨ch :: cs, rfl, blocks_of_readToken hread⟩

/-! ### What decides what is read -/

/-- Reads the run of digits that the text `ch :: cs` starts with. -/
def readRun (c : Calculator) (ch : Char) (cs : List Char) : Except ScanFault (Token × List Char) :=
  let digits := ch :: cs.takeWhile c.numerals.isDigit
  match c.numerals.read? (String.ofList digits) with
  | some value => .ok (.numeral digits value, cs.dropWhile c.numerals.isDigit)
  | none => .error (.invalidNumeral digits)

/-- A run ends where its digits end. -/
theorem readRun_append {ch : Char} {ds cs : List Char}
    (hds : ∀ d ∈ ds, c.numerals.isDigit d = true) (hcs : c.Stops cs) :
    c.readRun ch (ds ++ cs) =
      match c.numerals.read? (String.ofList (ch :: ds)) with
      | some value => .ok (.numeral (ch :: ds) value, cs)
      | none => .error (.invalidNumeral (ch :: ds)) := by
  rw [readRun, takeWhile_run hds hcs, dropWhile_run hds hcs]

/-- Either the first character of a text decides what is read, or it is a digit and begins a
run. -/
theorem readToken_cases (c : Calculator) (ch : Char) :
    (∃ r : Except ScanFault Token, (∀ t, r = .ok t → t.text = [ch]) ∧
        ∀ cs, c.readToken ch cs = r.map (·, cs)) ∨
      c.numerals.isDigit ch = true ∧ ∀ cs, c.readToken ch cs = c.readRun ch cs := by
  by_cases hr : isReserved ch = true
  · left
    rcases (isReserved_iff ch).1 hr with hb | rfl | rfl
    · refine ⟨.ok (.blank ch), fun t ht => ?_, fun cs => if_pos hb⟩
      cases ht
      rfl
    · refine ⟨.ok .opening, fun t ht => ?_, fun cs => rfl⟩
      cases ht
      rfl
    · refine ⟨.ok .closing, fun t ht => ?_, fun cs => rfl⟩
      cases ht
      rfl
  have hread (cs : List Char) : c.readToken ch cs = _ :=
    readToken_of_not_isReserved (Bool.eq_false_iff.2 hr)
  cases hop : c.operators.find? ch with
  | some op =>
    obtain ⟨-, rfl⟩ := OperatorTable.find?_eq_some_iff.1 hop
    refine .inl ⟨.ok (.operator op), fun t ht => ?_, fun cs => ?_⟩
    · cases ht
      rfl
    · rw [hread, hop]
      rfl
  | none =>
    by_cases hd : c.numerals.isDigit ch = true
    · refine .inr ⟨hd, fun cs => ?_⟩
      rw [hread, hop]
      exact if_pos hd
    · refine .inl ⟨.error (.unknownCharacter ch), (fun t ht => by cases ht), fun cs => ?_⟩
      rw [hread, hop]
      exact if_neg hd

/-! ### Ending the text earlier -/

/-- A token is read in the same way if the text ends earlier after it. -/
theorem readToken_of_prefix {ch : Char} {cs rest xs ys : List Char} {t : Token}
    (h : c.readToken ch cs = .ok (t, rest)) (hrest : xs ++ ys = rest) :
    ∃ cs', t.text ++ xs = ch :: cs' ∧ c.readToken ch cs' = .ok (t, xs) := by
  rcases c.readToken_cases ch with ⟨r, htext, hread⟩ | ⟨hd, hread⟩
  · rw [hread] at h
    cases r with
    | error fault => cases h
    | ok u =>
      cases h
      refine ⟨xs, ?_, hread xs⟩
      rw [htext t rfl]
      rfl
  · have hds : ∀ d ∈ cs.takeWhile c.numerals.isDigit, c.numerals.isDigit d = true :=
      fun d hd' => (isRun_takeWhile hd cs).2 d (List.mem_cons_of_mem _ hd')
    rw [hread, readRun] at h
    split at h
    · next v hv =>
      cases h
      -- the digits end where they did: what followed them was no digit, or is gone
      have hxs : c.Stops xs := by
        intro d hd
        refine c.stops_dropWhile cs d ?_
        rw [← hrest]
        exact List.mem_head?_append_of_mem_head? hd
      refine ⟨cs.takeWhile c.numerals.isDigit ++ xs, rfl, ?_⟩
      rw [hread, readRun_append hds hxs, hv]
    · cases h

/-- If the text ends where the scan stopped, the same tokens are read and nothing is wrong. -/
theorem scan_textOf_scan (c : Calculator) (cs : List Char) :
    c.scan (Token.textOf (c.scan cs).tokens) = ⟨(c.scan cs).tokens, none⟩ := by
  induction cs using scan.induct c with
  | case1 => rw [scan_nil, Token.textOf_nil, scan_nil]
  | case2 ch cs t rest hread _ ih =>
    obtain ⟨left, hleft, -⟩ := c.scan_eq rest
    obtain ⟨cs', htext, hread'⟩ := readToken_of_prefix hread hleft
    rw [scan_cons_of_ok hread, Scan.cons, Token.textOf_cons, htext, scan_cons_of_ok hread', ih]
    rfl
  | case3 ch cs fault hread => rw [scan_cons_of_error hread, Token.textOf_nil, scan_nil]

end Calculator

/-! ### The run over what was read -/

/-- Ends the run: in the fault that the text goes on with, or at its end. -/
def Machine.stop (m : Machine) : Option EvaluationError → Except Halt (Machine × Int64)
  | some e => .error ⟨e, m⟩
  | none => m.finish

namespace Calculator

/-- The fault that ends the scan of a text, at its place. -/
def faultOf (c : Calculator) (cs : List Char) : Option EvaluationError :=
  (c.scan cs).fault?.map (·.error (Text.width (Token.textOf (c.scan cs).tokens)))

/-- The run over a text is that over its tokens, into the fault that ends the scan or to the
end. -/
theorem compute_eq (c : Calculator) (cs : List Char) :
    c.compute cs = .ofEnding ((Machine.empty.steps (Token.place 0 (c.scan cs).tokens)).bind
      (·.stop (c.faultOf cs))) := by
  rw [compute, faultOf]
  cases (c.scan cs).fault? <;> rfl

/-- The value of a text whose scan is known comes of the tokens and of what ends them. -/
theorem value_of_scan {c : Calculator} {expression : String} {ts : List Token}
    {fault? : Option ScanFault} (h : c.scan expression.toList = ⟨ts, fault?⟩) :
    c.value expression =
      let run := Run.ofEnding ((Machine.empty.steps (Token.place 0 ts)).bind
        (·.stop (fault?.map (·.error (Text.width (Token.textOf ts))))))
      ⟨.evaluating expression :: run.applications.map .applied, run.outcome⟩ := by
  rw [value, compute_eq, faultOf, h]

/-- The outcome of a text with these tokens. -/
theorem outcome_of_scan {c : Calculator} {expression : String} {ts : List Token}
    {fault? : Option ScanFault} (h : c.scan expression.toList = ⟨ts, fault?⟩) :
    (c.value expression).outcome =
      (Run.ofEnding ((Machine.empty.steps (Token.place 0 ts)).bind
        (·.stop (fault?.map (·.error (Text.width (Token.textOf ts))))))).outcome := by
  rw [value_of_scan h]

end Calculator

end Abacus
