/-!
# Lines

A line ends with a line feed, and a carriage return right before the line feed belongs to the
end. What follows the last line feed is a line too if it is not empty.
-/

namespace Abacus.Text

/-- The lines of a text, without their ends. -/
def linesOf : List Char → List (List Char)
  | [] => []
  | '\n' :: cs => [] :: linesOf cs
  | '\r' :: '\n' :: cs => [] :: linesOf cs
  | c :: cs =>
    match linesOf cs with
    | [] => [[c]]
    | l :: ls => (c :: l) :: ls

/-- The lines of a text, without their ends. -/
def lines (text : String) : List String := (linesOf text.toList).map String.ofList

end Abacus.Text
