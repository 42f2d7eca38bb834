/-!
Lines of a text. A line ends at a newline; one carriage return directly before that newline belongs
to the line's end, any other carriage return to the line. A text that ends in a newline has no empty
line after it.
-/

namespace Evolution.Text

/-- The lines of a text, without their ends. -/
def lines : List Char → List (List Char)
  | [] => []
  | '\n' :: rest => [] :: lines rest
  | '\r' :: '\n' :: rest => [] :: lines rest
  | c :: rest =>
    match lines rest with
    | [] => [[c]]
    | line :: more => (c :: line) :: more

/-- Lines set one under the other, with a newline between two of them. -/
def joinLines : List (List Char) → List Char
  | [] => []
  | [line] => line
  | line :: next :: more => line ++ '\n' :: joinLines (next :: more)

end Evolution.Text
