import Abacus.Proofs.Calculator.Moving
import Abacus.Proofs.Calculator.Value

/-!
# Spacing

Blanks only part tokens (`Calculator.value_spaced`). If blanks are put into a text wherever one
likes, but not between two digits, the calculator does the same with the text as before: it
applies the same operators to the same operands in the same order, and it comes to the same value
or to the same fault. What it reports stands where the character it reported before stands now.

The two texts are kept as one row of characters, each with the blanks put in front of it
(`Text.Spaced`), so that what is left of one text after a token and what is left of the other are
again such a row. The scans of the two texts are compared token by token (`movedScan_spaced`);
what the machine does with the tokens is known from tokens that move.
-/

namespace Abacus

/-- No blank is a character numerals are written with. -/
def NumeralSystem.Blankless (n : NumeralSystem) : Prop :=
  ∀ ch, Text.isBlank ch = true → n.isDigit ch = false

theorem NumeralSystem.Unreserved.blankless {n : NumeralSystem} (h : n.Unreserved) :
    n.Blankless :=
  fun ch hblank => h.isDigit_eq_false ((isReserved_iff ch).2 (.inl hblank))

/-! ### Texts with blanks put in -/

namespace Text

/-- A character of a text with the blanks that are put in front of it. -/
structure Spaced where
  /-- The blanks. -/
  blanks : List Char
  /-- The character, which may be a blank itself. -/
  char : Char
  /-- The blanks are blanks. -/
  isBlank : blanks.all Text.isBlank = true

namespace Spaced

/-- The text without the blanks put in. -/
def bare (ss : List Spaced) : List Char := ss.map char

/-- The text with the blanks put in. -/
def full (ss : List Spaced) : List Char := ss.flatMap fun s => s.blanks ++ [s.char]

@[simp] theorem bare_cons (s : Spaced) (ss : List Spaced) : bare (s :: ss) = s.char :: bare ss :=
  rfl

@[simp] theorem bare_append (ss us : List Spaced) : bare (ss ++ us) = bare ss ++ bare us :=
  List.map_append

@[simp] theorem full_cons (s : Spaced) (ss : List Spaced) :
    full (s :: ss) = s.blanks ++ s.char :: full ss := by
  simp [full]

@[simp] theorem full_append (ss us : List Spaced) : full (ss ++ us) = full ss ++ full us :=
  List.flatMap_append

/-- Nothing is put in between two digits of the text. -/
def Unbroken (n : NumeralSystem) (ss : List Spaced) : Prop :=
  ss.IsChain fun s u => n.isDigit s.char = true → n.isDigit u.char = true → u.blanks = []

/-- The texts start at `start` and at `start'`, and `f` says of the place of a character in the
one where it stands in the other. -/
def Tracks (f : Nat → Nat) (start start' : Nat) (ss : List Spaced) : Prop :=
  ∀ before s after, ss = before ++ s :: after →
    f (start + width (bare before)) = start' + width (full before) + width s.blanks

/-- The place in the text with the blanks of the character that stands at a place of the text. -/
def offset : List Spaced → Nat → Nat
  | [], p => p
  | s :: ss, p =>
    if p = 0 then width s.blanks
    else width s.blanks + s.char.utf8Size + offset ss (p - s.char.utf8Size)

theorem tracks_offset (ss : List Spaced) : Tracks (offset ss) 0 0 ss := by
  induction ss with
  | nil => exact fun before s after h => by simp at h
  | cons s ss ih =>
    intro before u after h
    match before, h with
    | [], h =>
      obtain ⟨rfl, -⟩ := List.cons.inj h
      exact (if_pos rfl).trans (Nat.zero_add _).symm
    | _ :: before, h =>
      obtain ⟨rfl, hss⟩ := List.cons.inj h
      have hpos := s.char.utf8Size_pos
      have hrest := ih before u after hss
      simp only [Nat.zero_add] at hrest ⊢
      rw [offset, bare_cons, width_cons, if_neg (by omega), Nat.add_sub_cancel_left, hrest,
        full_cons, width_append, width_cons]
      omega

namespace Tracks

variable {f : Nat → Nat} {start start' : Nat}

theorem head {s : Spaced} {ss : List Spaced} (h : Tracks f start start' (s :: ss)) :
    f start = start' + width s.blanks :=
  h [] s ss rfl

/-- After a part of the text the rest is tracked. -/
theorem append {ss us : List Spaced} (h : Tracks f start start' (ss ++ us)) :
    Tracks f (start + width (bare ss)) (start' + width (full ss)) us := by
  rintro before s after rfl
  have hs := h (ss ++ before) s after (List.append_assoc _ _ _).symm
  simp only [bare_append, full_append, width_append, ← Nat.add_assoc] at hs
  exact hs

end Tracks

end Spaced

/-- A text and blanks put into it, none of them between two digits. -/
structure Spacing (n : NumeralSystem) where
  /-- The characters of the text, with the blanks put in front of them. -/
  chars : List Spaced
  /-- The blanks put at the end. -/
  trailing : List Char
  /-- The blanks at the end are blanks. -/
  isBlank : trailing.all Text.isBlank = true
  /-- Nothing is put in between two digits. -/
  unbroken : Spaced.Unbroken n chars

namespace Spacing

variable {n : NumeralSystem}

/-- The text without the blanks put in. -/
def bare (t : Spacing n) : String := String.ofList (Spaced.bare t.chars)

/-- The text with the blanks put in. -/
def full (t : Spacing n) : String := String.ofList (Spaced.full t.chars ++ t.trailing)

/-- `f` says of the place of a character in the text where it stands among the blanks. -/
def Tracks (t : Spacing n) (f : Nat → Nat) : Prop := Spaced.Tracks f 0 0 t.chars

end Spacing

end Text

open Text

/-! ### Like scans -/

/-- The second scan finds what the first one does, blanks aside, at other positions: the tokens,
and the fault that ends it. -/
structure MovedScan (f : Nat → Nat) (start start' : Nat) (s s' : Scan) : Prop where
  /-- The same fault ends them. -/
  fault? : s'.fault? = s.fault?
  /-- They find the same tokens. -/
  visible : Token.visible (Token.place start' s'.tokens) =
    (Token.visible (Token.place start s.tokens)).map (·.move f)
  /-- The fault is found at the other position. -/
  position : s.fault?.isSome = true →
    start' + width (Token.textOf s'.tokens) = f (start + width (Token.textOf s.tokens))

namespace MovedScan

variable {f : Nat → Nat} {start start' : Nat} {s s' : Scan}

/-- Scans that begin with the same token are like if they go on alike. -/
theorem cons {t : Token} (hf : f start = start')
    (h : MovedScan f (start + t.width) (start' + t.width) s s') :
    MovedScan f start start' (s.cons t) (s'.cons t) := by
  refine ⟨h.fault?, ?_, fun hfault => ?_⟩
  · have hplace (p : Nat) (s : Scan) : Token.visible (Token.place p (s.cons t).tokens) =
        if t.isBlank = true then Token.visible (Token.place (p + t.width) s.tokens)
        else ⟨p, t⟩ :: Token.visible (Token.place (p + t.width) s.tokens) := by
      show List.filter _ (_ :: _) = _
      rw [List.filter_cons]
      cases t.isBlank <;> rfl
    rw [hplace, hplace, h.visible]
    split
    · rfl
    · rw [List.map_cons, PlacedToken.move, hf]
  · have hp := h.position hfault
    simp only [Scan.cons, Token.textOf_cons, width_append, ← Nat.add_assoc]
    exact hp

/-- A blank in front of the second text does not count. -/
theorem blank {b : Char} (h : MovedScan f start (start' + b.utf8Size) s s') :
    MovedScan f start start' s (s'.cons (.blank b)) := by
  refine ⟨h.fault?, h.visible, fun hfault => ?_⟩
  rw [← h.position hfault]
  exact (Nat.add_assoc _ _ _).symm

end MovedScan

namespace Calculator

open Spaced

variable {c : Calculator} {f : Nat → Nat} {start start' : Nat}

/-- Blanks in front of the second text do not count. -/
theorem movedScan_blanks {s : Scan} {bs cs : List Char} (hbs : bs.all isBlank = true)
    (h : MovedScan f start (start' + width bs) s (c.scan cs)) :
    MovedScan f start start' s (c.scan (bs ++ cs)) := by
  induction bs generalizing start' with
  | nil => exact h
  | cons b bs ih =>
    rw [List.all_cons, Bool.and_eq_true] at hbs
    obtain ⟨hb, hbs⟩ := hbs
    have hread : c.readToken b (bs ++ cs) = .ok (.blank b, bs ++ cs) := if_pos hb
    rw [List.cons_append, scan_cons_of_ok hread]
    refine (ih hbs ?_).blank
    rwa [Nat.add_assoc, ← width_cons]

/-- A text that goes on with no digit does so with blanks in front. -/
theorem stops_blanks (hc : c.numerals.Blankless) {bs cs : List Char} (hbs : bs.all isBlank = true)
    (hcs : c.Stops cs) : c.Stops (bs ++ cs) := by
  cases bs with
  | nil => exact hcs
  | cons b bs => exact stops_cons (hc b (List.all_eq_true.1 hbs b List.mem_cons_self)) _

/-- The digits after a digit are the same in both texts. -/
theorem exists_run (hc : c.numerals.Blankless) {s : Spaced} {ss : List Spaced}
    (hs : c.numerals.isDigit s.char = true) (hss : Unbroken c.numerals (s :: ss))
    {trailing : List Char} (htrailing : trailing.all isBlank = true) :
    ∃ as bs, ss = as ++ bs ∧ full as = bare as ∧
      (∀ d ∈ bare as, c.numerals.isDigit d = true) ∧ c.Stops (bare bs) ∧
      c.Stops (full bs ++ trailing) := by
  induction ss generalizing s with
  | nil =>
    refine ⟨[], [], rfl, rfl, fun d hd => absurd hd List.not_mem_nil, c.stops_nil, ?_⟩
    have hstops := stops_blanks hc htrailing c.stops_nil
    rwa [List.append_nil] at hstops
  | cons u ss ih =>
    obtain ⟨hgap, hrest⟩ := List.isChain_cons_cons.1 hss
    cases hu : c.numerals.isDigit u.char with
    | true =>
      obtain ⟨as, bs, rfl, hfull, hdigits, hstops, hstops'⟩ := ih hu hrest
      refine ⟨u :: as, bs, rfl, ?_, List.forall_mem_cons.2 ⟨hu, hdigits⟩, hstops, hstops'⟩
      rw [full_cons, hgap hs hu, hfull]
      rfl
    | false =>
      refine ⟨[], u :: ss, rfl, rfl, fun d hd => absurd hd List.not_mem_nil, stops_cons hu _, ?_⟩
      rw [full_cons, List.append_assoc]
      exact stops_blanks hc u.isBlank (stops_cons hu _)

/-- At a character of the texts either no token can be read in both, for the same reason, or the
same token is read in both, and the texts go on alike. -/
theorem readToken_spaced (hc : c.numerals.Blankless) {s : Spaced} {ss : List Spaced}
    (hss : Unbroken c.numerals (s :: ss)) {trailing : List Char}
    (htrailing : trailing.all isBlank = true) :
    (∃ fault, c.readToken s.char (bare ss) = .error fault ∧
        c.readToken s.char (full ss ++ trailing) = .error fault) ∨
      ∃ t as bs, ss = as ++ bs ∧ t.text = s.char :: bare as ∧ full as = bare as ∧
        c.readToken s.char (bare ss) = .ok (t, bare bs) ∧
        c.readToken s.char (full ss ++ trailing) = .ok (t, full bs ++ trailing) := by
  rcases c.readToken_cases s.char with ⟨r, htext, hread⟩ | ⟨hs, hread⟩
  · rw [hread, hread]
    cases r with
    | error fault => exact .inl ⟨fault, rfl, rfl⟩
    | ok t => exact .inr ⟨t, [], ss, rfl, htext t rfl, rfl, rfl, rfl⟩
  · obtain ⟨as, bs, rfl, hfull, hdigits, hstops, hstops'⟩ := exists_run hc hs hss htrailing
    rw [hread, hread, bare_append, full_append, hfull, List.append_assoc,
      readRun_append hdigits hstops, readRun_append hdigits hstops']
    cases c.numerals.read? (String.ofList (s.char :: bare as)) with
    | none => exact .inl ⟨_, rfl, rfl⟩
    | some value => exact .inr ⟨_, as, bs, rfl, rfl, hfull, rfl, rfl⟩

/-- The scan of a text with blanks put in is like the scan of the text. -/
theorem movedScan_spaced (hc : c.numerals.Blankless) {ss : List Spaced}
    (hss : Unbroken c.numerals ss) {trailing : List Char}
    (htrailing : trailing.all isBlank = true) (hf : Tracks f start start' ss) :
    MovedScan f start start' (c.scan (bare ss)) (c.scan (full ss ++ trailing)) := by
  have hnone (p p' : Nat) : MovedScan f p p' ⟨[], none⟩ ⟨[], none⟩ :=
    ⟨rfl, rfl, fun h => by cases h⟩
  induction hn : ss.length using Nat.strongRecOn generalizing ss start start' with
  | _ n ih =>
    cases ss with
    | nil =>
      show MovedScan f start start' (c.scan []) (c.scan trailing)
      rw [← List.append_nil trailing]
      refine movedScan_blanks htrailing ?_
      rw [scan_nil]
      exact hnone _ _
    | cons s ss =>
      rw [bare_cons, full_cons, List.append_assoc]
      refine movedScan_blanks s.isBlank ?_
      rcases readToken_spaced hc hss htrailing with
        ⟨fault, hread, hread'⟩ | ⟨t, as, bs, rfl, htext, hfull, hread, hread'⟩
      · rw [scan_cons_of_error hread, List.cons_append, scan_cons_of_error hread']
        exact ⟨rfl, rfl, fun _ => hf.head.symm⟩
      · rw [scan_cons_of_ok hread, List.cons_append, scan_cons_of_ok hread']
        have hall : Unbroken c.numerals ((s :: as) ++ bs) := hss
        have hbs : Unbroken c.numerals bs := List.IsChain.right_of_append hall
        have hrest : Tracks f (start + t.width) (start' + width s.blanks + t.width) bs := by
          have hbare : width (bare (s :: as)) = t.width := congrArg width htext.symm
          have hw : width (full (s :: as)) = width s.blanks + t.width := by
            rw [full_cons, hfull, width_append, ← bare_cons, hbare]
          have htracks : Tracks f start start' ((s :: as) ++ bs) := hf
          have := htracks.append
          rwa [hbare, hw, ← Nat.add_assoc] at this
        have hlength : bs.length < n := by
          rw [← hn, List.length_cons, List.length_append]
          omega
        exact .cons hf.head (ih bs.length hlength hbs hrest rfl)

/-- The run over a text with blanks put in is like the run over the text. -/
theorem compute_spaced (hc : c.numerals.Blankless) (t : Spacing c.numerals) (hf : t.Tracks f) :
    Run.Moved f [] [] (c.compute t.bare.toList) (c.compute t.full.toList) := by
  rw [Spacing.bare, Spacing.full, String.toList_ofList, String.toList_ofList]
  have hscan := movedScan_spaced hc t.unbroken t.isBlank hf
  have hfault : c.faultOf (full t.chars ++ t.trailing) =
      (c.faultOf (bare t.chars)).map (·.move f) := by
    rw [faultOf, faultOf, hscan.fault?, Option.map_map]
    cases hfault : (c.scan (bare t.chars)).fault? with
    | none => rfl
    | some fault =>
      have hposition := hscan.position (Option.isSome_iff_exists.2 ⟨fault, hfault⟩)
      rw [Nat.zero_add, Nat.zero_add] at hposition
      exact congrArg some ((congrArg (fault.error ·) hposition).trans (fault.error_move f _))
  have hsteps := (Machine.moved_empty f).steps
    (Token.visible (Token.place 0 (c.scan (bare t.chars)).tokens))
  rw [← hscan.visible, steps_visible, steps_visible] at hsteps
  rw [compute_eq, compute_eq, hfault]
  exact hsteps.ending _

/-- **Spacing.** If blanks are put into a text anywhere but between two digits, the text has the
same value, or fails in the same way at the place where the character in question stands now, and
the same operators are applied to the same operands in the same order. -/
theorem value_spaced (c : Calculator) (hc : c.numerals.Blankless) (t : Spacing c.numerals) :
    (∃ f, t.Tracks f) ∧ ∀ f, t.Tracks f →
      (c.value t.full).outcome = (c.value t.bare).outcome.mapError (·.move f) ∧
      (∃ as : List Application, (c.value t.bare).events = .evaluating t.bare :: as.map .applied ∧
        (c.value t.full).events = .evaluating t.full :: as.map fun a => .applied (a.move f)) ∧
      (c.value t.full).events.tail.map Event.line =
        (c.value t.bare).events.tail.map Event.line := by
  refine ⟨⟨_, tracks_offset t.chars⟩, fun f hf => ?_⟩
  have hrun := compute_spaced hc t hf
  have hevents : (c.value t.full).events = .evaluating t.full ::
      (c.compute t.bare.toList).applications.map fun a => .applied (a.move f) := by
    show _ :: (c.compute t.full.toList).applications.map _ = _
    rw [hrun.applications, List.map_map]
    rfl
  refine ⟨hrun.outcome, ⟨_, rfl, hevents⟩, ?_⟩
  rw [hevents]
  show List.map _ (List.map _ _) = List.map _ (List.map _ _)
  rw [List.map_map, List.map_map]
  -- the line of an application does not say where the operator stands
  rfl

/-- In `(I+II)*` the operator `*` at byte 6 has no right operand. With blanks of one, two and three
bytes put in it stands at byte 13. -/
theorem value_spaced_roman :
    let t : Spacing roman.numerals :=
      { chars := [⟨[' '], '(', rfl⟩, ⟨[], 'I', rfl⟩, ⟨['\u00a0'], '+', rfl⟩, ⟨[], 'I', rfl⟩,
          ⟨[], 'I', rfl⟩, ⟨['\u3000'], ')', rfl⟩, ⟨['\t'], '*', rfl⟩]
        trailing := [' ', ' ']
        isBlank := rfl
        unbroken := by unfold Unbroken; decide }
    roman.numerals.Blankless ∧ t.bare = "(I+II)*" ∧ t.full = " (I\u00a0+II\u3000)\t*  " ∧
      (roman.value t.bare).outcome = .error (.missingOperand '*' 6) ∧
      (roman.value t.full).outcome = .error (.missingOperand '*' 13) := by
  intro t
  have hc : roman.numerals.Blankless := NumeralSystem.roman_unreserved.blankless
  have hscan : roman.scan t.bare.toList =
      ⟨[.opening, .numeral ['I'] 1, .operator .add, .numeral ['I', 'I'] 2, .closing,
        .operator .mul], none⟩ := by
    cbv
  have hbare : (roman.value t.bare).outcome = .error (.missingOperand '*' 6) :=
    outcome_of_scan hscan
  obtain ⟨houtcome, -⟩ := (roman.value_spaced hc t).2 _ (tracks_offset t.chars)
  rw [hbare] at houtcome
  exact ⟨hc, rfl, rfl, hbare, houtcome⟩

end Calculator

end Abacus
