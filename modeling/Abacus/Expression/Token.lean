import Abacus.Expression.Bracket
import Abacus.Operator.Basic
import Abacus.Text.Width

/-!
# Tokens

An expression is read as a row of tokens. A token keeps the characters it was read from, so the
tokens of a text put together are the text again, and the place of a token is the width of the
tokens before it.
-/

namespace Abacus

/-- A piece of an expression. -/
inductive Token where
  /-- A blank character, which only parts other tokens. -/
  | blank (c : Char)
  /-- An opening bracket. -/
  | opening
  /-- A closing bracket. -/
  | closing
  /-- An operator. -/
  | operator (op : Operator)
  /-- A numeral: its digits and its value. -/
  | numeral (digits : List Char) (value : Int64)

/-- A token at its place in the text. -/
structure PlacedToken where
  /-- The number of bytes before the token. -/
  position : Nat
  /-- The token. -/
  token : Token

namespace Token

/-- The characters the token is written with. -/
def text : Token → List Char
  | blank c => [c]
  | opening => [openingBracket]
  | closing => [closingBracket]
  | operator op => [op.symbol]
  | numeral digits _ => digits

/-- The number of bytes the token takes. -/
def width (t : Token) : Nat := Text.width t.text

/-- The tokens at their places, the first of them at `start`. -/
def place (start : Nat) : List Token → List PlacedToken
  | [] => []
  | t :: ts => ⟨start, t⟩ :: place (start + t.width) ts

/-- The characters the tokens are written with. -/
def textOf (ts : List Token) : List Char := ts.flatMap text

@[simp] theorem textOf_nil : textOf [] = [] := rfl

@[simp] theorem textOf_cons (t : Token) (ts : List Token) :
    textOf (t :: ts) = t.text ++ textOf ts := rfl

@[simp] theorem textOf_append (ts us : List Token) :
    textOf (ts ++ us) = textOf ts ++ textOf us := by
  simp [textOf]

/-- Placing the tokens in two parts places the second part after the first. -/
theorem place_append (start : Nat) (ts us : List Token) :
    place start (ts ++ us) = place start ts ++ place (start + Text.width (textOf ts)) us := by
  induction ts generalizing start with
  | nil => rfl
  | cons t ts ih => simp [place, ih, width, Nat.add_assoc]

/-- Starting further on moves every token by as much. -/
theorem place_add (start d : Nat) (ts : List Token) :
    place (start + d) ts = (place start ts).map fun p => { p with position := p.position + d } := by
  induction ts generalizing start with
  | nil => rfl
  | cons t ts ih => simp [place, ← ih, Nat.add_right_comm]

end Token

end Abacus
