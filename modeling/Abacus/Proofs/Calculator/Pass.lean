import Abacus.Proofs.Calculator.Diagnostics
import Abacus.Proofs.Expression.Alternation

/-!
# One pass over a text

A text can be gone over once, character by character, each piece taken by the machine as soon as
it is read (`Calculator.pass`). A numeral is then known by the place of its first digit and the
place one has come to when the digits are over, and is cut out of the text between the two.

Such a pass never cuts a character apart, and it comes to what scanning the whole text first and
running the machine afterwards comes to (`Calculator.exists_pass`). What it has taken when it
stops are the pieces of a front of the text one after another, and every cut is a whole run of
digits (`Calculator.pass_partitions`). This holds for any numerals, also those written with blanks
or brackets: what such a character means is decided by whether a run of digits has begun.
-/

namespace Abacus

/-- A run of digits that is cut out of a text to be read as a numeral. -/
structure Cut where
  /-- The place of its first digit. -/
  start : Nat
  /-- The place one has come to when its digits are over. -/
  stop : Nat
  /-- The text between the two places. -/
  digits : String

/-- What is read at a character of a text. -/
structure Reading where
  /-- The run that is cut out, if the character begins one. -/
  cut? : Option Cut
  /-- The piece that is read, or why there is none. -/
  piece : Except ScanFault Token
  /-- The characters that are left. -/
  left : List (Nat × Char)

/-- The piece that is read at the character, if there is one, at its place. -/
def Reading.pieces (r : Reading) (p : Nat) : List PlacedToken :=
  match r.piece with
  | .ok t => [⟨p, t⟩]
  | .error _ => []

/-- What has come of going over a text. -/
structure Pass where
  /-- The pieces that were taken. -/
  pieces : List PlacedToken
  /-- The runs that were cut out. -/
  cuts : List Cut
  /-- The machine at the end of the text, or where the pass stopped before. -/
  outcome : Except Halt Machine

/-- The tokens that the pieces are. -/
def Pass.tokens (P : Pass) : List Token := P.pieces.map PlacedToken.token

/-- The pass that takes nothing. -/
def Pass.over (outcome : Except Halt Machine) : Pass := ⟨[], [], outcome⟩

/-- The pass with one more piece in front. -/
def Pass.after (P : Pass) (t : PlacedToken) (cut? : Option Cut) : Pass :=
  { P with pieces := t :: P.pieces, cuts := cut?.toList ++ P.cuts }

@[simp] theorem Pass.tokens_after (P : Pass) (t : PlacedToken) (cut? : Option Cut) :
    (P.after t cut?).tokens = t.token :: P.tokens := rfl

namespace Calculator

/-- Reads a run that was cut out as a numeral. -/
def readCut (c : Calculator) (cut : Cut) (left : List (Nat × Char)) : Reading where
  cut? := some cut
  piece :=
    match c.numerals.read? cut.digits with
    | some value => .ok (.numeral cut.digits.toList value)
    | none => .error (.invalidNumeral cut.digits.toList)
  left := left

/-- Cuts out the run of digits that begins at the place and goes on as far as the characters left
are digits, and reads it. -/
def cutRun (c : Calculator) (s : String) (start : Nat) (left : List (Nat × Char)) :
    Option Reading :=
  let left := left.dropWhile fun placed => c.numerals.isDigit placed.2
  let stop := Text.placeOf s left
  (Text.slice? s start stop).map fun digits => c.readCut ⟨start, stop, digits⟩ left

/-- Reads the piece that begins with the character at the place. -/
def readAt (c : Calculator) (s : String) (p : Nat) (ch : Char) (left : List (Nat × Char)) :
    Option Reading :=
  if Text.isBlank ch then some ⟨none, .ok (.blank ch), left⟩
  else if ch = openingBracket then some ⟨none, .ok .opening, left⟩
  else if ch = closingBracket then some ⟨none, .ok .closing, left⟩
  else
    match c.operators.find? ch with
    | some op => some ⟨none, .ok (.operator op), left⟩
    | none =>
      if c.numerals.isDigit ch then c.cutRun s p left
      else some ⟨none, .error (.unknownCharacter ch), left⟩

theorem length_left_of_readAt {c : Calculator} {s : String} {p : Nat} {ch : Char}
    {left : List (Nat × Char)} {r : Reading} (h : c.readAt s p ch left = some r) :
    r.left.length ≤ left.length := by
  unfold readAt at h
  -- only a run takes more than the character
  iterate 4
    split at h
    · cases h
      exact Nat.le_refl _
  split at h
  · obtain ⟨digits, -, rfl⟩ := Option.map_eq_some_iff.1 h
    exact (List.dropWhile_sublist _).length_le
  · cases h
    exact Nat.le_refl _

/-- Goes over the characters of a text at their places and gives every piece to the machine as
soon as it is read. There is no pass if a run is to be cut out where there is no slice. -/
def pass (c : Calculator) (s : String) (m : Machine) : List (Nat × Char) → Option Pass
  | [] => some (.over (.ok m))
  | (p, ch) :: left =>
    match h : c.readAt s p ch left with
    | none => none
    | some r =>
      match r.piece with
      | .error fault => some ⟨[], r.cut?.toList, .error ⟨fault.error p, m⟩⟩
      | .ok t =>
        match m.step ⟨p, t⟩ with
        | .error halt => some ((Pass.over (.error halt)).after ⟨p, t⟩ r.cut?)
        | .ok m =>
          have := length_left_of_readAt h
          (c.pass s m r.left).map (·.after ⟨p, t⟩ r.cut?)
termination_by left => left.length

section

variable {c : Calculator} {s : String} {m : Machine} {cs before : List Char} {ch : Char}

theorem pass_nil (c : Calculator) (s : String) (m : Machine) :
    c.pass s m [] = some (.over (.ok m)) := by
  rw [pass]

theorem pass_cons {p : Nat} {left : List (Nat × Char)} {r : Reading}
    (h : c.readAt s p ch left = some r) (m : Machine) :
    c.pass s m ((p, ch) :: left) =
      match r.piece with
      | .error fault => some ⟨[], r.cut?.toList, .error ⟨fault.error p, m⟩⟩
      | .ok t =>
        match m.step ⟨p, t⟩ with
        | .error halt => some ((Pass.over (.error halt)).after ⟨p, t⟩ r.cut?)
        | .ok m => (c.pass s m r.left).map (·.after ⟨p, t⟩ r.cut?) := by
  rw [pass]
  split
  · next h' =>
    rw [h] at h'
    cases h'
  · next h' =>
    rw [h] at h'
    cases h'
    rfl

/-! ### What is cut out -/

/-- The text that is cut out is a run of digits, whole characters of the text, and the run goes on
neither before its end nor after it. -/
structure Cuts (c : Calculator) (s : String) (cut : Cut) : Prop where
  /-- The first place is between two characters or at an end. -/
  start : String.Pos.Raw.IsValid s ⟨cut.start⟩
  /-- So is the last one. -/
  stop : String.Pos.Raw.IsValid s ⟨cut.stop⟩
  /-- There is at least one byte between them. -/
  room : cut.start + 1 ≤ cut.stop
  /-- The digits are the text between them. -/
  slice : Text.slice? s cut.start cut.stop = some cut.digits
  /-- All characters are digits. -/
  run : c.IsRun cut.digits.toList
  /-- The first of them has no meaning of its own. -/
  head : ∀ d ∈ cut.digits.toList.head?, isReserved d = false
  /-- The text ends there or goes on with no digit. -/
  stops : ∃ rest, Text.GoesOn s.toList cut.stop rest ∧ c.Stops rest
  /-- No operator is among them. -/
  apart : ∀ op ∈ c.operators.toList, op.symbol ∉ cut.digits.toList

/-- The numeral that is read of a run, at its place. -/
def numeral? (c : Calculator) (cut : Cut) : Option PlacedToken :=
  (c.numerals.read? cut.digits).map fun value => ⟨cut.start, .numeral cut.digits.toList value⟩

/-- The run of digits that begins with the character is cut out. -/
theorem cuts_run (h : s.toList = before ++ ch :: cs) (hr : isReserved ch = false)
    (hd : c.numerals.isDigit ch = true) :
    c.Cuts s ⟨Text.width before,
      Text.width before + Text.width (ch :: cs.takeWhile c.numerals.isDigit),
      String.ofList (ch :: cs.takeWhile c.numerals.isDigit)⟩ := by
  have hrun := isRun_takeWhile hd cs
  have hs : s.toList = before ++ ((ch :: cs.takeWhile c.numerals.isDigit) ++
      cs.dropWhile c.numerals.isDigit) := by
    rw [h, List.cons_append, List.takeWhile_append_dropWhile]
  have hslice := Text.slice?_of_append hs
  refine ⟨(Text.isValid_of_slice? hslice).1, (Text.isValid_of_slice? hslice).2, ?_, hslice, ?_, ?_,
    ⟨_, ⟨before ++ (ch :: cs.takeWhile c.numerals.isDigit), ?_, Text.width_append _ _⟩,
      c.stops_dropWhile cs⟩, ?_⟩
  · exact Nat.add_le_add_left (Text.width_pos hrun.1) _
  · rwa [String.toList_ofList]
  · rw [String.toList_ofList]
    intro d hd'
    obtain rfl : ch = d := by simpa using hd'
    exact hr
  · rw [hs, List.append_assoc]
  · rw [String.toList_ofList]
    intro op hop hmem
    have hdigit := hrun.2 _ hmem
    rw [c.apart op hop] at hdigit
    cases hdigit

/-! ### What is read at a character -/

/-- What is read at the character is what the scan reads there, and a run that is cut out is
one. -/
structure Reads (c : Calculator) (s : String) (p : Nat) (ch : Char) (cs : List Char)
    (r : Reading) : Prop where
  /-- The piece is that of the scan, and the characters after it are left. -/
  piece : ∃ rest, c.readToken ch cs = r.piece.map (·, rest) ∧
    ∀ t, r.piece = .ok t → r.left = Text.place (p + t.width) rest
  /-- A run is cut out whole. -/
  cuts : ∀ cut ∈ r.cut?, c.Cuts s cut
  /-- The piece is a numeral if a run is cut out and has a value. -/
  numerals : (r.pieces p).filter (·.token.isNumeral) = r.cut?.toList.filterMap c.numeral?
  /-- There is no piece if a run is cut out and has no value. -/
  invalid : ∀ cut ∈ r.cut?, c.numerals.read? cut.digits = none →
    r.piece = .error (.invalidNumeral cut.digits.toList) ∧ cut.start = p

theorem Reads.piece_of_ok {p : Nat} {r : Reading} {t : Token} {rest : List Char}
    (h : c.Reads s p ch cs r) (hread : c.readToken ch cs = .ok (t, rest)) :
    r.piece = .ok t ∧ r.left = Text.place (p + t.width) rest := by
  obtain ⟨rest', hpiece, hleft⟩ := h.piece
  rw [hread] at hpiece
  cases hr : r.piece with
  | error fault =>
    rw [hr] at hpiece
    cases hpiece
  | ok u =>
    rw [hr] at hpiece
    cases hpiece
    exact ⟨rfl, hleft t hr⟩

theorem Reads.piece_of_error {p : Nat} {r : Reading} {fault : ScanFault}
    (h : c.Reads s p ch cs r) (hread : c.readToken ch cs = .error fault) :
    r.piece = .error fault := by
  obtain ⟨rest', hpiece, -⟩ := h.piece
  rw [hread] at hpiece
  cases hr : r.piece with
  | error fault' =>
    rw [hr] at hpiece
    cases hpiece
    rfl
  | ok u =>
    rw [hr] at hpiece
    cases hpiece

/-- What is read of a single character. -/
theorem reads_single {r : Except ScanFault Token} (h : c.readToken ch cs = r.map (·, cs))
    (hr : ∀ t, r = .ok t → t.text = [ch] ∧ t.isNumeral = false) (p : Nat) :
    c.Reads s p ch cs ⟨none, r, Text.place (p + ch.utf8Size) cs⟩ := by
  refine ⟨⟨cs, h, fun t ht => ?_⟩, ?_, ?_, ?_⟩
  · rw [Token.width, (hr t ht).1]
    rfl
  · intro cut hcut
    cases hcut
  · cases r with
    | error fault => rfl
    | ok t => simp [Reading.pieces, (hr t rfl).2]
  · intro cut hcut
    cases hcut

/-- What is read of a run of digits. -/
theorem reads_readCut {cut : Cut} (h : c.readToken ch cs = c.readRun ch cs)
    (hdigits : cut.digits = String.ofList (ch :: cs.takeWhile c.numerals.isDigit))
    (hcut : c.Cuts s cut) :
    c.Reads s cut.start ch cs (c.readCut cut (Text.place
      (cut.start + Text.width (ch :: cs.takeWhile c.numerals.isDigit))
      (cs.dropWhile c.numerals.isDigit))) := by
  refine ⟨⟨cs.dropWhile c.numerals.isDigit, ?_, fun t ht => ?_⟩, ?_, ?_, ?_⟩
  · rw [h, readRun, readCut, hdigits, String.toList_ofList]
    cases c.numerals.read? (String.ofList (ch :: cs.takeWhile c.numerals.isDigit)) <;> rfl
  · rw [readCut] at ht
    dsimp only at ht
    split at ht
    · cases ht
      rw [Token.width, Token.text, hdigits, String.toList_ofList]
      rfl
    · cases ht
  · intro cut' hcut'
    obtain rfl := Option.some.inj hcut'
    exact hcut
  · simp only [Reading.pieces, readCut, numeral?, Option.toList_some, List.filterMap_cons,
      List.filterMap_nil]
    cases c.numerals.read? cut.digits <;> rfl
  · intro cut' hcut' hnone
    obtain rfl := Option.some.inj hcut'
    rw [readCut, hnone]
    exact ⟨rfl, rfl⟩

/-- A run of digits is cut out and read as the scan reads it. -/
theorem exists_cutRun (h : s.toList = before ++ ch :: cs) (hr : isReserved ch = false)
    (hd : c.numerals.isDigit ch = true) (hread : c.readToken ch cs = c.readRun ch cs) :
    ∃ r, c.cutRun s (Text.width before) (Text.place (Text.width before + ch.utf8Size) cs) = some r ∧
      c.Reads s (Text.width before) ch cs r := by
  have hcuts := cuts_run h hr hd
  have hs : s.toList = (before ++ (ch :: cs.takeWhile c.numerals.isDigit)) ++
      cs.dropWhile c.numerals.isDigit := by
    rw [h, List.append_assoc, List.cons_append, List.takeWhile_append_dropWhile]
  have hstop := Text.placeOf_place hs
  rw [Text.width_append] at hstop
  have hleft := Text.dropWhile_place c.numerals.isDigit (Text.width before + ch.utf8Size) cs
  rw [Nat.add_assoc, ← Text.width_cons] at hleft
  refine ⟨_, ?_, reads_readCut hread rfl hcuts⟩
  simp only [cutRun, hleft, hstop, hcuts.slice, Option.map_some]

/-- What is not reserved is an operator, a run of digits, or nothing. -/
theorem readAt_of_not_isReserved (h : isReserved ch = false) (s : String) (p : Nat)
    (left : List (Nat × Char)) :
    c.readAt s p ch left =
      match c.operators.find? ch with
      | some op => some ⟨none, .ok (.operator op), left⟩
      | none =>
        if c.numerals.isDigit ch then c.cutRun s p left
        else some ⟨none, .error (.unknownCharacter ch), left⟩ := by
  obtain ⟨hb, ho, hcl⟩ := (not_isReserved_iff ch).1 h
  unfold readAt
  exact (if_neg (by simp [hb])).trans ((if_neg ho).trans (if_neg hcl))

/-- At every character of a text is read what the scan reads there. -/
theorem exists_readAt (h : s.toList = before ++ ch :: cs) :
    ∃ r, c.readAt s (Text.width before) ch (Text.place (Text.width before + ch.utf8Size) cs) =
        some r ∧ c.Reads s (Text.width before) ch cs r := by
  have hsingle {t : Token} (ht : t.text = [ch] ∧ t.isNumeral = false) :
      ∀ u, (.ok t : Except ScanFault Token) = .ok u → u.text = [ch] ∧ u.isNumeral = false := by
    rintro u ⟨⟩
    exact ht
  by_cases hr : isReserved ch = true
  · rcases (isReserved_iff ch).1 hr with hb | rfl | rfl
    · have hread : c.readToken ch cs = .ok (.blank ch, cs) := if_pos hb
      exact ⟨_, if_pos hb, reads_single (r := .ok (.blank ch)) hread (hsingle ⟨rfl, rfl⟩) _⟩
    · exact ⟨_, rfl, reads_single rfl (hsingle ⟨rfl, rfl⟩) _⟩
    · exact ⟨_, rfl, reads_single rfl (hsingle ⟨rfl, rfl⟩) _⟩
  have hr := Bool.eq_false_iff.2 hr
  have hread : c.readToken ch cs = _ := readToken_of_not_isReserved hr
  rw [readAt_of_not_isReserved hr]
  cases hop : c.operators.find? ch with
  | some op =>
    obtain ⟨-, rfl⟩ := OperatorTable.find?_eq_some_iff.1 hop
    rw [hop] at hread
    exact ⟨_, rfl, reads_single hread (hsingle ⟨rfl, rfl⟩) _⟩
  | none =>
    rw [hop] at hread
    by_cases hd : c.numerals.isDigit ch = true
    · simp only [hd, if_true] at hread ⊢
      exact exists_cutRun h hr hd hread
    · simp only [hd] at hread ⊢
      exact ⟨_, rfl, reads_single hread (fun t ht => by cases ht) _⟩

/-! ### The whole pass -/

/-- `c.Covers s start cs P`: the pass has gone over the text from the place on, where it goes on
as `cs`. -/
structure Covers (c : Calculator) (s : String) (start : Nat) (cs : List Char) (P : Pass) :
    Prop where
  /-- The pieces stand one right after the other. -/
  placed : P.pieces = Token.place start P.tokens
  /-- They are the first tokens of the scan. -/
  scanned : P.tokens <+: (c.scan cs).tokens
  /-- Put together they are a front of the text. -/
  front : Token.textOf P.tokens <+: cs
  /-- They are the whole text if nothing has stopped the pass. -/
  whole : ∀ m, P.outcome = .ok m → Token.textOf P.tokens = cs
  /-- Every run that was cut out is one. -/
  cuts : ∀ cut ∈ P.cuts, c.Cuts s cut
  /-- The numerals among the pieces are the runs that were cut out and have a value. -/
  numerals : P.pieces.filter (·.token.isNumeral) = P.cuts.filterMap c.numeral?
  /-- A run that has no value stands right after the pieces and has stopped the pass. -/
  invalid : ∀ cut ∈ P.cuts, c.numerals.read? cut.digits = none →
    cut.start = start + Text.width (Token.textOf P.tokens) ∧
      ∃ m, P.outcome = .error ⟨.invalidNumeral cut.digits cut.start, m⟩

theorem covers_over {start : Nat} {outcome : Except Halt Machine}
    (h : ∀ m, outcome = .ok m → cs = []) : c.Covers s start cs (.over outcome) where
  placed := rfl
  scanned := List.nil_prefix
  front := List.nil_prefix
  whole := fun m hm => (h m hm).symm
  cuts := fun _ hcut => absurd hcut List.not_mem_nil
  numerals := rfl
  invalid := fun _ hcut => absurd hcut List.not_mem_nil

/-- A pass that stops because no piece can be read. -/
theorem covers_of_fault {p : Nat} {r : Reading} {fault : ScanFault} (h : c.Reads s p ch cs r)
    (hr : r.piece = .error fault) (m : Machine) :
    c.Covers s p (ch :: cs) ⟨[], r.cut?.toList, .error ⟨fault.error p, m⟩⟩ where
  placed := rfl
  scanned := List.nil_prefix
  front := List.nil_prefix
  whole := fun _ hm => by cases hm
  cuts := fun cut hcut => h.cuts cut (Option.mem_toList.1 hcut)
  numerals := by
    rw [← h.numerals, Reading.pieces, hr]
  invalid := by
    intro cut hcut hnone
    obtain ⟨hpiece, rfl⟩ := h.invalid cut (Option.mem_toList.1 hcut) hnone
    rw [hpiece] at hr
    cases hr
    exact ⟨rfl, m, by rw [ScanFault.error, String.ofList_toList]⟩

/-- A pass that goes on after a piece. -/
theorem Covers.after {p : Nat} {r : Reading} {t : Token} {rest : List Char} {P : Pass}
    (hP : c.Covers s (p + t.width) rest P) (h : c.Reads s p ch cs r) (hr : r.piece = .ok t)
    (hread : c.readToken ch cs = .ok (t, rest)) :
    c.Covers s p (ch :: cs) (P.after ⟨p, t⟩ r.cut?) where
  placed := congrArg (List.cons _) hP.placed
  scanned := by
    rw [scan_cons_of_ok hread]
    exact (List.prefix_cons_inj t).2 hP.scanned
  front := by
    rw [← (readToken_eq_ok hread).1]
    exact (List.prefix_append_right_inj t.text).2 hP.front
  whole := by
    intro m hm
    rw [← (readToken_eq_ok hread).1]
    exact congrArg (t.text ++ ·) (hP.whole m hm)
  cuts := by
    intro cut hcut
    rcases List.mem_append.1 hcut with hcut | hcut
    · exact h.cuts cut (Option.mem_toList.1 hcut)
    · exact hP.cuts cut hcut
  numerals := by
    have hnumerals := h.numerals
    rw [Reading.pieces, hr] at hnumerals
    rw [Pass.after, ← List.singleton_append, List.filter_append, List.filterMap_append, hnumerals,
      hP.numerals]
  invalid := by
    intro cut hcut hnone
    rcases List.mem_append.1 hcut with hcut | hcut
    · -- a run without a value is no piece
      obtain ⟨hpiece, -⟩ := h.invalid cut (Option.mem_toList.1 hcut) hnone
      rw [hr] at hpiece
      cases hpiece
    · obtain ⟨hstart, hend⟩ := hP.invalid cut hcut hnone
      refine ⟨?_, hend⟩
      rw [hstart, Pass.tokens_after, Token.textOf_cons, Text.width_append, Nat.add_assoc]
      rfl

/-- There is a pass over what a text goes on as, and it comes to what scanning first and running
the machine afterwards comes to. -/
theorem exists_pass (h : s.toList = before ++ cs) (m : Machine) :
    ∃ P, c.pass s m (Text.place (Text.width before) cs) = some P ∧
      c.Covers s (Text.width before) cs P ∧
      P.outcome.bind (·.finish) =
        (m.steps (Token.place (Text.width before) (c.scan cs).tokens)).bind
          (·.stop ((c.scan cs).fault?.map
            (·.error (Text.width before + Text.width (Token.textOf (c.scan cs).tokens))))) := by
  induction cs using scan.induct c generalizing before m with
  | case1 =>
    rw [scan_nil]
    exact ⟨_, pass_nil c s m, covers_over fun _ _ => rfl, rfl⟩
  | case2 ch cs t rest hread _ ih =>
    obtain ⟨r, hr, hreads⟩ := exists_readAt (c := c) h
    obtain ⟨hpiece, hleft⟩ := hreads.piece_of_ok hread
    have hrest : s.toList = (before ++ t.text) ++ rest := by
      rw [h, List.append_assoc, (readToken_eq_ok hread).1]
    have hwidth : Text.width (before ++ t.text) = Text.width before + t.width :=
      Text.width_append _ _
    rw [Text.place, pass_cons hr, hpiece, scan_cons_of_ok hread]
    simp only [Scan.cons, Token.place, Machine.steps_cons, Token.textOf_cons, Text.width_append]
    cases hstep : m.step ⟨Text.width before, t⟩ with
    | error halt =>
      have hover : c.Covers s (Text.width before + t.width) rest (.over (.error halt)) :=
        covers_over fun _ hm => by cases hm
      exact ⟨_, rfl, hover.after hreads hpiece hread, rfl⟩
    | ok m' =>
      obtain ⟨P, hP, hcovers, hend⟩ := ih hrest m'
      rw [hwidth] at hP hcovers hend
      refine ⟨P.after ⟨Text.width before, t⟩ r.cut?, ?_, hcovers.after hreads hpiece hread, ?_⟩
      · simp only [hleft, hP, Option.map_some]
      · rw [Nat.add_assoc] at hend
        exact hend
  | case3 ch cs fault hread =>
    obtain ⟨r, hr, hreads⟩ := exists_readAt (c := c) h
    have hpiece := hreads.piece_of_error hread
    rw [Text.place, pass_cons hr, hpiece, scan_cons_of_error hread]
    exact ⟨_, rfl, covers_of_fault hreads hpiece m, rfl⟩

/-- A piece of a text is the slice that it takes up. -/
theorem slice?_of_mem_place {t : PlacedToken} (h : t ∈ Token.place 0 (c.scan s.toList).tokens) :
    Text.slice? s t.position (t.position + t.token.width) = some (String.ofList t.token.text) := by
  obtain ⟨-, rest, before, htext, hp⟩ := goesOn_of_mem_place h
  rw [← hp]
  exact Text.slice?_of_append htext.symm

end

/-- **One pass over a text.** Whatever the numerals are written with, a text can be gone over in
one pass that comes to what the text comes to. The pieces that it has taken stand one after the
other from the start of the text on, each the slice it takes up, and they are the whole text if
nothing has stopped the pass. The runs that were cut out on the way are runs of digits from the
first to the last, and the numerals among the pieces are those of them that have a value. -/
theorem pass_partitions (c : Calculator) (expression : String) :
    ∃ P, c.pass expression .empty (Text.place 0 expression.toList) = some P ∧
      c.compute expression.toList = .ofEnding (P.outcome.bind (·.finish)) ∧
      c.Covers expression 0 expression.toList P ∧
      P.pieces.Pairwise (fun t u => t.position + t.token.width ≤ u.position) ∧
      ∀ t ∈ P.pieces, c.Admits t.token ∧
        Text.slice? expression t.position (t.position + t.token.width) =
          some (String.ofList t.token.text) := by
  have htext : expression.toList = [] ++ expression.toList := rfl
  obtain ⟨P, hP, hcovers, hend⟩ := exists_pass (c := c) htext .empty
  obtain ⟨us, hus⟩ := hcovers.scanned
  refine ⟨P, hP, ?_, hcovers, ?_, fun t ht => ?_⟩
  · rw [compute_eq, faultOf, hend]
    simp only [Text.width_nil, Nat.zero_add]
  · rw [hcovers.placed]
    exact Token.pairwise_place _ _
  · have hmem : t ∈ Token.place 0 (c.scan expression.toList).tokens := by
      rw [← hus, Token.place_append]
      exact List.mem_append_left _ (hcovers.placed ▸ ht)
    exact ⟨(goesOn_of_mem_place hmem).1, slice?_of_mem_place hmem⟩

/-- A bracket or a blank that is a digit goes on a run, and begins none. -/
example :
    let c : Calculator :=
      { operators := .standard
        numerals := ⟨fun ch => ch = '(' || ch = 'é' || ch = ' ', fun _ => some 1, fun _ => .ok "é"⟩
        apart := by decide }
    (c.pass "( é( +é" .empty (Text.place 0 "( é( +é".toList)).map Pass.cuts =
      some [⟨2, 6, "é( "⟩, ⟨7, 9, "é"⟩] := by
  cbv

end Calculator

end Abacus
