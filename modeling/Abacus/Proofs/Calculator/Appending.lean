import Abacus.Proofs.Calculator.Diagnostics
import Abacus.Proofs.Numeral.Fronts

/-!
# Appending

What is wrong with a text from the left stays wrong, whatever is written after the text
(`Calculator.value_append`): a character that means nothing, digits that are no numeral, and a
closing bracket that has no partner.

More text changes the scan only where it ended. The tokens before that are read as they were
(`scan_append`), and if the scan ended in a fault, it does so again: only digits at the end of
the text can become more (`ScanFault.Grows`), and no numeral comes of them as long as digits that
are no numeral begin none. The machine does not look ahead, so it stops at the same token too
(`Machine.exists_of_steps_error`).
-/

namespace Abacus

/-- `fault.Grows cs fault'`: the text `cs` begins with the fault, and with more text after it the
fault is `fault'`. Only digits that are all of the text can go on. -/
def ScanFault.Grows (cs : List Char) : ScanFault → ScanFault → Prop
  | .unknownCharacter ch, fault' => fault' = .unknownCharacter ch
  | .invalidNumeral ds, fault' => ∃ es, fault' = .invalidNumeral (ds ++ es) ∧ (es = [] ∨ ds = cs)

theorem ScanFault.Grows.refl (cs : List Char) (fault : ScanFault) : fault.Grows cs fault := by
  cases fault with
  | unknownCharacter ch => rfl
  | invalidNumeral ds => exact ⟨[], by rw [List.append_nil], .inl rfl⟩

namespace Calculator

variable {c : Calculator}

/-! ### Scanning more text -/

/-- A text begins with its digits, and goes on with what follows them. -/
theorem takeWhile_append_dropWhile_append (c : Calculator) (cs ds : List Char) :
    cs.takeWhile c.numerals.isDigit ++ (cs.dropWhile c.numerals.isDigit ++ ds) = cs ++ ds := by
  rw [← List.append_assoc, List.takeWhile_append_dropWhile]

/-- A token is read in the same way if the text goes on with something else. -/
theorem readToken_append {ch : Char} {cs rest ds : List Char} {t : Token}
    (h : c.readToken ch cs = .ok (t, rest)) (hds : c.Precedes t (rest ++ ds)) :
    c.readToken ch (cs ++ ds) = .ok (t, rest ++ ds) := by
  rcases c.readToken_cases ch with ⟨r, -, hread⟩ | ⟨-, hread⟩
  · rw [hread] at h ⊢
    cases r with
    | error fault => cases h
    | ok u =>
      cases h
      rfl
  · rw [hread, readRun] at h
    split at h
    · next v hv =>
      cases h
      rw [hread, ← takeWhile_append_dropWhile_append,
        readRun_append (fun _ => List.mem_takeWhile_imp) hds, hv]
    · cases h

/-- Where no token can be read, none can be read if the text goes on. -/
theorem exists_readToken_append (hc : c.numerals.FrontClosed) {ch : Char} {cs : List Char}
    {fault : ScanFault} (h : c.readToken ch cs = .error fault) (ds : List Char) :
    ∃ fault', c.readToken ch (cs ++ ds) = .error fault' ∧ fault.Grows (ch :: cs) fault' := by
  rcases c.readToken_cases ch with ⟨r, -, hread⟩ | ⟨-, hread⟩
  · refine ⟨fault, ?_, .refl _ _⟩
    rw [hread] at h ⊢
    cases r with
    | error fault' =>
      cases h
      rfl
    | ok t => cases h
  · rw [hread, readRun] at h
    split at h
    · cases h
    next hv =>
    cases h
    by_cases hend : cs.dropWhile c.numerals.isDigit = []
    · -- the digits are all there is, so those that the other text begins with belong to them
      have hcs : cs.takeWhile c.numerals.isDigit = cs := by
        simpa [hend] using takeWhile_append_dropWhile_append c cs []
      have hrun : ∀ d ∈ cs ++ ds.takeWhile c.numerals.isDigit, c.numerals.isDigit d = true := by
        intro d hd
        rcases List.mem_append.1 hd with hd | hd
        · rw [← hcs] at hd
          exact List.mem_takeWhile_imp hd
        · exact List.mem_takeWhile_imp hd
      have hmore := hc _ (ds.takeWhile c.numerals.isDigit) (List.cons_ne_nil _ _) hv
      rw [hcs] at hmore ⊢
      refine ⟨_, ?_, ds.takeWhile c.numerals.isDigit, rfl, .inr rfl⟩
      have htext : cs ++ ds = (cs ++ ds.takeWhile c.numerals.isDigit) ++
          ds.dropWhile c.numerals.isDigit := by
        rw [List.append_assoc, List.takeWhile_append_dropWhile]
      rw [hread, htext, readRun_append hrun (c.stops_dropWhile ds), ← List.cons_append, hmore]
    · refine ⟨_, ?_, .refl _ _⟩
      rw [hread, ← takeWhile_append_dropWhile_append,
        readRun_append (fun _ => List.mem_takeWhile_imp)
          (stops_append_of_ne_nil (c.stops_dropWhile cs) hend ds), hv]

/-- The first token of a scan is the one read at the start of the text. -/
theorem exists_of_scan_cons {cs : List Char} {t : Token} {ts : List Token}
    (h : (c.scan cs).tokens = t :: ts) :
    ∃ ch left rest, cs = ch :: left ∧ c.readToken ch left = .ok (t, rest) ∧
      (c.scan rest).tokens = ts := by
  cases cs with
  | nil =>
    rw [scan_nil] at h
    cases h
  | cons ch left =>
    cases hread : c.readToken ch left with
    | error fault =>
      rw [scan_cons_of_error hread] at h
      cases h
    | ok r =>
      obtain ⟨u, rest⟩ := r
      rw [scan_cons_of_ok hread] at h
      obtain ⟨rfl, hrest⟩ := List.cons.inj h
      exact ⟨ch, left, rest, rfl, hread, hrest⟩

/-- If a scan ends in a fault at once, no token can be read at the start of the text. -/
theorem exists_of_scan_fault {cs : List Char} {fault : ScanFault}
    (h : c.scan cs = ⟨[], some fault⟩) :
    ∃ ch left, cs = ch :: left ∧ c.readToken ch left = .error fault := by
  cases cs with
  | nil =>
    rw [scan_nil] at h
    cases h
  | cons ch left =>
    cases hread : c.readToken ch left with
    | ok r =>
      rw [scan_cons_of_ok hread] at h
      cases h
    | error fault' =>
      rw [scan_cons_of_error hread] at h
      cases h
      exact ⟨ch, left, rfl, hread⟩

/-- More text changes the scan only after the tokens that do not end with the text. -/
theorem scan_append {cs : List Char} {xs ys : List Token} (h : (c.scan cs).tokens = xs ++ ys) :
    ∃ left, Token.textOf xs ++ left = cs ∧ c.scan left = ⟨ys, (c.scan cs).fault?⟩ ∧
      ∀ ds, left ≠ [] → c.scan (cs ++ ds) =
        ⟨xs ++ (c.scan (left ++ ds)).tokens, (c.scan (left ++ ds)).fault?⟩ := by
  induction xs generalizing cs with
  | nil => exact ⟨cs, rfl, by rw [← List.nil_append ys, ← h], fun ds _ => rfl⟩
  | cons x xs ih =>
    obtain ⟨ch, cs, rest, rfl, hread, hrest⟩ := exists_of_scan_cons h
    obtain ⟨left, htext, hleft, hds⟩ := ih hrest
    rw [scan_cons_of_ok hread]
    refine ⟨left, ?_, hleft, fun ds hne => ?_⟩
    · rw [Token.textOf_cons, List.append_assoc, htext, (readToken_eq_ok hread).1]
    · have hrest : rest ≠ [] := htext ▸ List.append_ne_nil_of_right_ne_nil _ hne
      have hp := precedes_append_of_ne_nil (admits_of_readToken hread).2 hrest ds
      rw [List.cons_append, scan_cons_of_ok (readToken_append hread hp), hds ds hne]
      rfl

/-- A token that can stand before any text is read again, after the same tokens. -/
theorem exists_tokens_append {cs : List Char} {xs ys : List Token} {t : Token}
    (h : (c.scan cs).tokens = xs ++ t :: ys) (ht : ∀ rest, c.Precedes t rest) (ds : List Char) :
    ∃ us, (c.scan (cs ++ ds)).tokens = xs ++ t :: us := by
  obtain ⟨left, -, hleft, hds⟩ := scan_append h
  obtain ⟨ch, left, rest, rfl, hread, -⟩ := exists_of_scan_cons (congrArg Scan.tokens hleft)
  rw [hds ds (List.cons_ne_nil _ _), List.cons_append,
    scan_cons_of_ok (readToken_append hread (ht _))]
  exact ⟨_, rfl⟩

/-- A scan that ends in a fault ends in one after the same tokens if the text goes on. -/
theorem exists_scan_append (hc : c.numerals.FrontClosed) {cs : List Char} {fault : ScanFault}
    (h : (c.scan cs).fault? = some fault) (ds : List Char) :
    ∃ left fault', Token.textOf (c.scan cs).tokens ++ left = cs ∧ fault.Grows left fault' ∧
      c.scan (cs ++ ds) = ⟨(c.scan cs).tokens, some fault'⟩ := by
  obtain ⟨left, htext, hleft, hds⟩ := scan_append (List.append_nil (c.scan cs).tokens).symm
  rw [h] at hleft
  obtain ⟨ch, left, rfl, hread⟩ := exists_of_scan_fault hleft
  obtain ⟨fault', hread', hgrows⟩ := exists_readToken_append hc hread ds
  refine ⟨_, fault', htext, hgrows, ?_⟩
  rw [hds ds (List.cons_ne_nil _ _), List.cons_append, scan_cons_of_error hread',
    List.append_nil]

end Calculator

/-! ### The token a run stops at -/

/-- Settling fails with a fault of an operator and its operands. -/
theorem isOperational_of_settle {due : Operator → Bool} {pending : List Pending} {w : Workings}
    {halt : Halt} (h : settle due pending w = .error halt) : halt.error.isOperational = true := by
  induction pending generalizing w with
  | nil => cases h
  | cons e pending ih =>
    cases e with
    | opening p => cases h
    | operator op p =>
      rw [settle] at h
      split at h
      · cases hw : w.apply op p with
        | ok w' =>
          rw [hw] at h
          exact ih h
        | error e =>
          rw [hw] at h
          cases h
          exact Workings.isOperational_of_apply hw
      · cases h

namespace Machine

/-- A token at which a bracket is reported is a closing bracket, and it is the one reported. -/
theorem eq_closing_of_step {m : Machine} {t : PlacedToken} {halt : Halt} {p : Nat}
    (h : m.step t = .error halt) (hp : halt.error = .unbalancedBracket p) : t = ⟨p, .closing⟩ := by
  rw [step_eq] at h
  cases hsettle : m.settle t.token.releases with
  | error halt' =>
    rw [hsettle] at h
    cases h
    have hop := isOperational_of_settle hsettle
    rw [hp] at hop
    cases hop
  | ok m' =>
    rw [hsettle] at h
    obtain ⟨q, t⟩ := t
    cases t with
    | closing =>
      have hclose : m'.close q = .error halt := h
      unfold close at hclose
      split at hclose
      · cases hclose
      · cases hclose
        cases hp
        rfl
    | _ => cases h

/-- A run that cannot take its tokens stops at one of them, and has taken those before it. -/
theorem exists_of_steps_error {m : Machine} {ts : List PlacedToken} {halt : Halt}
    (h : m.steps ts = .error halt) :
    ∃ xs t ys m', ts = xs ++ t :: ys ∧ m.steps xs = .ok m' ∧ m'.step t = .error halt := by
  induction ts generalizing m with
  | nil => cases h
  | cons t ts ih =>
    rw [steps_cons] at h
    cases hstep : m.step t with
    | error halt' =>
      rw [hstep] at h
      cases h
      exact ⟨[], t, ts, m, rfl, rfl, hstep⟩
    | ok m₁ =>
      rw [hstep] at h
      obtain ⟨xs, u, ys, m', rfl, hxs, hu⟩ := ih h
      refine ⟨t :: xs, u, ys, m', rfl, ?_, hu⟩
      rw [steps_cons, hstep]
      exact hxs

/-- Whatever comes after the token it stops at, the run stops there. -/
theorem steps_of_step_error {m m' : Machine} {xs us : List PlacedToken} {t : PlacedToken}
    {halt : Halt} (hxs : m.steps xs = .ok m') (ht : m'.step t = .error halt) :
    m.steps (xs ++ t :: us) = .error halt := by
  rw [steps_append, hxs]
  show m'.steps (t :: us) = _
  rw [steps_cons, ht]
  rfl

/-- What waits is no closing bracket. -/
theorem Holds.ne_closing {kind : PlacedToken → Prop} {m : Machine} (h : m.Holds kind) :
    m.Holds fun t => kind t ∧ t.token ≠ .closing := by
  intro e he
  refine ⟨h e he, ?_⟩
  cases e <;> exact fun hclosing => by cases hclosing

end Machine

/-- A fault of the machine is none of the scan. -/
theorem EvaluationError.Blames.isLexical_eq_false {kind : PlacedToken → Prop} {e : EvaluationError}
    (h : e.Blames kind) : e.isLexical = false := by
  cases e with
  | invalidNumeral | unknownCharacter => exact absurd h id
  | _ => rfl

namespace Text.GoesOn

/-- A text goes on in one way from a position. -/
theorem unique {cs rest rest' : List Char} {p : Nat} (h : GoesOn cs p rest)
    (h' : GoesOn cs p rest') : rest = rest' := by
  obtain ⟨before, htext, hp⟩ := h
  obtain ⟨before', htext', hp'⟩ := h'
  -- what lies between the two places takes no room
  have hnil (xs : List Char) (hxs : width xs = 0) : xs = [] :=
    by_contra fun hne => Nat.ne_of_gt (width_pos hne) hxs
  have happend := List.append_eq_append_iff.1 (htext.trans htext'.symm)
  rcases happend with ⟨xs, rfl, hrest⟩ | ⟨xs, rfl, hrest⟩
  · rw [width_append] at hp'
    rw [hrest, hnil xs (by omega), List.nil_append]
  · rw [width_append] at hp
    rw [hrest, hnil xs (by omega), List.nil_append]

end Text.GoesOn

/-! ### Faults that stay -/

namespace Calculator

variable {c : Calculator} {cs : List Char}

/-- Taking the tokens of a text keeps to them. -/
theorem keeps_tokens (c : Calculator) (cs : List Char) :
    Keeps (· ∈ Token.place 0 (c.scan cs).tokens)
      (Machine.empty.steps (Token.place 0 (c.scan cs).tokens)) :=
  Machine.keeps_steps (Machine.holds_empty _) fun _ ht => ht

/-- If a fault of the scan is reported, the scan ends in it, and the machine takes all tokens
before. -/
theorem steps_of_isLexical {e : EvaluationError} (h : (c.compute cs).outcome = .error e)
    (hlexical : e.isLexical = true) :
    c.faultOf cs = some e ∧
      ∃ m, Machine.empty.steps (Token.place 0 (c.scan cs).tokens) = .ok m := by
  have hsteps := keeps_tokens c cs
  rw [compute_eq] at h
  obtain ⟨halt, hr, rfl⟩ := outcome_eq_error h
  cases hm : Machine.empty.steps (Token.place 0 (c.scan cs).tokens) with
  | error halt' =>
    rw [hm] at hr hsteps
    cases hr
    exact absurd hlexical (Bool.eq_false_iff.1 hsteps.isLexical_eq_false)
  | ok m =>
    rcases Machine.blames_of_run (Machine.holds_empty _) (fun t ht => ht) hr with
      hfault | hblames
    · exact ⟨hfault, m, rfl⟩
    · exact absurd hlexical (Bool.eq_false_iff.1 hblames.isLexical_eq_false)

/-- A fault of the scan stays where it is if the text goes on. -/
theorem exists_lexical_append (hc : c.numerals.FrontClosed) {e : EvaluationError}
    (h : (c.compute cs).outcome = .error e) (hlexical : e.isLexical = true) (ds : List Char) :
    ∃ (fault fault' : ScanFault) (left : List Char),
      e = fault.error (Text.width (Token.textOf (c.scan cs).tokens)) ∧
      Token.textOf (c.scan cs).tokens ++ left = cs ∧ fault.Grows left fault' ∧
      (c.compute (cs ++ ds)).outcome =
        .error (fault'.error (Text.width (Token.textOf (c.scan cs).tokens))) := by
  obtain ⟨hfault, m, hm⟩ := steps_of_isLexical h hlexical
  obtain ⟨fault, hscan, rfl⟩ := Option.map_eq_some_iff.1 hfault
  obtain ⟨left, fault', htext, hgrows, hds⟩ := exists_scan_append hc hscan ds
  refine ⟨fault, fault', left, rfl, htext, hgrows, ?_⟩
  rw [compute_eq, faultOf, hds, hm]
  rfl

/-- If a bracket is reported that is a closing one, the machine stops at it. -/
theorem exists_closing_of_error {p : Nat} {rest : List Char}
    (h : (c.compute cs).outcome = .error (.unbalancedBracket p))
    (hp : Text.GoesOn cs p (closingBracket :: rest)) :
    ∃ xs ys m halt, (c.scan cs).tokens = xs ++ .closing :: ys ∧
      Machine.empty.steps (Token.place 0 xs) = .ok m ∧ p = Text.width (Token.textOf xs) ∧
      m.step ⟨p, .closing⟩ = .error halt ∧ halt.error = .unbalancedBracket p := by
  have hsteps := keeps_tokens c cs
  rw [compute_eq] at h
  obtain ⟨halt, hr, herror⟩ := outcome_eq_error h
  cases hm : Machine.empty.steps (Token.place 0 (c.scan cs).tokens) with
  | error halt' =>
    rw [hm] at hr
    cases hr
    obtain ⟨before, t, after, m', hplace, hbefore, ht⟩ := Machine.exists_of_steps_error hm
    obtain rfl := Machine.eq_closing_of_step ht herror
    obtain ⟨xs, ys, htokens, rfl, hposition, -⟩ := Token.place_eq_append_cons hplace
    exact ⟨xs, ys, m', halt, htokens, hbefore, hposition.trans (Nat.zero_add _), ht, herror⟩
  | ok m =>
    -- what is reported at the end is a bracket that waits, but an opening one
    rw [hm] at hr hsteps
    have hend : m.stop (c.faultOf cs) = .error halt := hr
    cases hfault : c.faultOf cs with
    | some e =>
      rw [hfault] at hend
      cases hend
      obtain rfl : e = _ := herror
      cases isLexical_of_faultOf hfault
    | none =>
      rw [hfault] at hend
      have hblames := Machine.blames_of_finish (Machine.Holds.ne_closing hsteps) hend
      rw [herror] at hblames
      rcases hblames with ⟨hmem, -⟩ | ⟨-, hclosing⟩
      · obtain ⟨-, rest', hrest'⟩ := goesOn_of_mem_place hmem
        cases hp.unique hrest'
      · exact absurd rfl hclosing

/-- A closing bracket without a partner has none if the text goes on. -/
theorem closing_append {p : Nat} {rest : List Char}
    (h : (c.compute cs).outcome = .error (.unbalancedBracket p))
    (hp : Text.GoesOn cs p (closingBracket :: rest)) (ds : List Char) :
    (c.compute (cs ++ ds)).outcome = .error (.unbalancedBracket p) := by
  obtain ⟨xs, ys, m, halt, htokens, hxs, hposition, hstep, herror⟩ := exists_closing_of_error h hp
  obtain ⟨us, hus⟩ := exists_tokens_append htokens (fun _ => trivial) ds
  have hplace : Token.place 0 (c.scan (cs ++ ds)).tokens =
      Token.place 0 xs ++ ⟨p, .closing⟩ :: Token.place (p + Token.closing.width) us := by
    rw [hus, Token.place_append, Nat.zero_add, ← hposition]
    rfl
  rw [compute_eq, hplace, Machine.steps_of_step_error hxs hstep]
  exact congrArg _ herror

/-- **Appending repairs nothing.** If a text has a character that means nothing, or a closing
bracket without a partner, the same is wrong with every text that begins with it. If it has digits
that are no numeral, every such text has at the same position digits that begin with them and are
no numeral, and they are the same if they were not at the end. -/
theorem value_append (c : Calculator) (hc : c.numerals = .roman) (s t : String) :
    (∀ ch p, (c.value s).outcome = .error (.unknownCharacter ch p) →
      (c.value (s ++ t)).outcome = .error (.unknownCharacter ch p)) ∧
    (∀ p, (c.value s).outcome = .error (.unbalancedBracket p) →
      (∃ rest, Text.GoesOn s.toList p (closingBracket :: rest)) →
      (c.value (s ++ t)).outcome = .error (.unbalancedBracket p)) ∧
    ∀ k p, (c.value s).outcome = .error (.invalidNumeral k p) →
      ∃ k', (c.value (s ++ t)).outcome = .error (.invalidNumeral k' p) ∧
        k.toList <+: k'.toList ∧ (p + k.utf8ByteSize < s.utf8ByteSize → k' = k) := by
  have hclosed : c.numerals.FrontClosed := hc ▸ NumeralSystem.roman_frontClosed
  have happend : (c.value (s ++ t)).outcome = (c.compute (s.toList ++ t.toList)).outcome := by
    rw [← String.toList_append]
    rfl
  rw [happend]
  refine ⟨fun ch p h => ?_, fun p h ⟨rest, hrest⟩ => closing_append h hrest t.toList,
    fun k p h => ?_⟩
  · obtain ⟨fault, fault', left, he, -, hgrows, hds⟩ :=
      exists_lexical_append hclosed h rfl t.toList
    cases fault with
    | invalidNumeral ds => cases he
    | unknownCharacter ch' =>
      obtain rfl : fault' = _ := hgrows
      rw [hds, ← he]
  · obtain ⟨fault, fault', left, he, htext, hgrows, hds⟩ :=
      exists_lexical_append hclosed h rfl t.toList
    cases fault with
    | unknownCharacter ch => cases he
    | invalidNumeral ds =>
      obtain ⟨es, rfl, hes⟩ := hgrows
      obtain ⟨rfl, rfl⟩ := EvaluationError.invalidNumeral.inj he
      refine ⟨String.ofList (ds ++ es), hds, ?_, fun hlt => ?_⟩
      · rw [String.toList_ofList, String.toList_ofList]
        exact List.prefix_append ds es
      · rcases hes with rfl | rfl
        · rw [List.append_nil]
        · rw [Text.utf8ByteSize_ofList, ← Text.width_append, htext, Text.width_toList] at hlt
          exact absurd hlt (Nat.lt_irrefl _)

/-- After `I)+` the bracket stays the fault, after `I+?` the character does, and of `(IIX` and
`(IIX ` only the first goes on with the digits that come. -/
theorem value_append_roman :
    (roman.value ("I)+" ++ "(I")).outcome = .error (.unbalancedBracket 1) ∧
      (roman.value ("I+?" ++ "I")).outcome = .error (.unknownCharacter '?' 2) ∧
      (∃ k', (roman.value ("(IIX" ++ "IV)")).outcome = .error (.invalidNumeral k' 1) ∧
        "IIX".toList <+: k'.toList) ∧
      (roman.value ("(IIX " ++ "IV)")).outcome = .error (.invalidNumeral "IIX" 1) := by
  have hbracket : roman.scan "I)+".toList =
      ⟨[.numeral ['I'] 1, .closing, .operator .add], none⟩ := by
    cbv
  have hcharacter : roman.scan "I+?".toList =
      ⟨[.numeral ['I'] 1, .operator .add], some (.unknownCharacter '?')⟩ := by
    cbv
  have hdigits : roman.scan "(IIX".toList =
      ⟨[.opening], some (.invalidNumeral ['I', 'I', 'X'])⟩ := by
    cbv
  have hdigits' : roman.scan "(IIX ".toList =
      ⟨[.opening], some (.invalidNumeral ['I', 'I', 'X'])⟩ := by
    cbv
  obtain ⟨k', hk', hfront, -⟩ :=
    (value_append roman rfl "(IIX" "IV)").2.2 "IIX" 1 (outcome_of_scan hdigits)
  obtain ⟨k'', hk'', -, hsame⟩ :=
    (value_append roman rfl "(IIX " "IV)").2.2 "IIX" 1 (outcome_of_scan hdigits')
  obtain rfl := hsame (by decide)
  refine ⟨?_, ?_, ⟨k', hk', hfront⟩, hk''⟩
  · exact (value_append roman rfl "I)+" "(I").2.1 1 (outcome_of_scan hbracket)
      ⟨['+'], ['I'], by decide, by decide⟩
  · exact (value_append roman rfl "I+?" "I").1 '?' 2 (outcome_of_scan hcharacter)

end Calculator

end Abacus
