import Abacus.Text.Width

/-!
# Places and slices

The characters of a text at their places (`Text.place`), and the part of a text between two
places (`Text.slice?`). A place that is not between two characters cuts a character apart, so not
any two numbers have a slice between them; those that a text is split at do
(`slice?_of_append`).
-/

namespace Abacus.Text

/-! ### Places -/

/-- The characters at their places, the first of them at `start`. -/
def place (start : Nat) : List Char → List (Nat × Char)
  | [] => []
  | ch :: cs => (start, ch) :: place (start + ch.utf8Size) cs

/-- The place that one has come to when these characters of the text are left. -/
def placeOf (s : String) : List (Nat × Char) → Nat
  | [] => s.utf8ByteSize
  | (p, _) :: _ => p

/-- Leaving out the characters at the front that have a property leaves the others at their
places. -/
theorem dropWhile_place (f : Char → Bool) (start : Nat) (cs : List Char) :
    (place start cs).dropWhile (fun placed => f placed.2) =
      place (start + width (cs.takeWhile f)) (cs.dropWhile f) := by
  induction cs generalizing start with
  | nil => rfl
  | cons ch cs ih =>
    by_cases hch : f ch = true
    · rw [place, List.dropWhile_cons_of_pos (by exact hch), ih, List.takeWhile_cons_of_pos hch,
        List.dropWhile_cons_of_pos hch, width_cons, Nat.add_assoc]
    · rw [List.takeWhile_cons_of_neg hch, List.dropWhile_cons_of_neg hch, place,
        List.dropWhile_cons_of_neg (by exact hch)]
      rfl

/-- When the back of a text is left, one has come to the place where its front ends. -/
theorem placeOf_place {s : String} {before after : List Char} (h : s.toList = before ++ after) :
    placeOf s (place (width before) after) = width before := by
  cases after with
  | nil =>
    rw [List.append_nil] at h
    rw [← h, width_toList]
    rfl
  | cons ch after => rfl

/-! ### Slices -/

/-- The part of the text from one place to another. There is none if one of them is not between
two characters or at an end, or if they are in the wrong order. -/
def slice? (s : String) (start stop : Nat) : Option String :=
  if h : start ≤ stop ∧ String.Pos.Raw.IsValid s ⟨start⟩ ∧ String.Pos.Raw.IsValid s ⟨stop⟩ then
    some (s.extract ⟨⟨start⟩, h.2.1⟩ ⟨⟨stop⟩, h.2.2⟩)
  else none

/-- A slice begins and ends between two characters or at an end. -/
theorem isValid_of_slice? {s t : String} {start stop : Nat} (h : slice? s start stop = some t) :
    String.Pos.Raw.IsValid s ⟨start⟩ ∧ String.Pos.Raw.IsValid s ⟨stop⟩ := by
  unfold slice? at h
  split at h
  · next hvalid => exact hvalid.2
  · cases h

/-- The front of a text ends between two characters or at the end. -/
theorem isValid_width {s : String} {before after : List Char} (h : s.toList = before ++ after) :
    String.Pos.Raw.IsValid s ⟨width before⟩ := by
  refine String.Pos.Raw.isValid_iff_exists_append.2
    ⟨String.ofList before, String.ofList after, ?_, ?_⟩
  · rw [← String.ofList_append, ← h, String.ofList_toList]
  · rw [String.rawEndPos, utf8ByteSize_ofList]

/-- What stands between the bytes of a front and those of a back. -/
theorem extract_toByteArray (a b c : String) :
    (a ++ b ++ c).toByteArray.extract a.utf8ByteSize (a.utf8ByteSize + b.utf8ByteSize) =
      b.toByteArray := by
  have hskip := ByteArray.extract_append_size_add (a := a.toByteArray)
    (b := b.toByteArray ++ c.toByteArray) (i := 0) (j := b.toByteArray.size)
  rw [Nat.add_zero, ByteArray.extract_append_eq_left rfl] at hskip
  rw [String.append_assoc, String.toByteArray_append, String.toByteArray_append]
  exact hskip

/-- The part of a text between a front and a back is the slice from the one to the other. -/
theorem slice?_of_append {s : String} {before cs after : List Char}
    (h : s.toList = before ++ (cs ++ after)) :
    slice? s (width before) (width before + width cs) = some (String.ofList cs) := by
  have hstop : s.toList = (before ++ cs) ++ after := by rw [h, List.append_assoc]
  have hvalid := isValid_width hstop
  rw [width_append] at hvalid
  have hs : s = String.ofList before ++ String.ofList cs ++ String.ofList after := by
    rw [← String.ofList_append, ← String.ofList_append, ← hstop, String.ofList_toList]
  rw [slice?, dif_pos ⟨Nat.le_add_right _ _, isValid_width h, hvalid⟩]
  refine congrArg some (String.toByteArray_inj.1 ?_)
  have hextract := extract_toByteArray (String.ofList before) (String.ofList cs) (String.ofList after)
  rw [← hs, utf8ByteSize_ofList, utf8ByteSize_ofList] at hextract
  exact hextract

end Abacus.Text
