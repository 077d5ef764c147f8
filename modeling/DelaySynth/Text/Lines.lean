/-!
# Lines of a text

A line ends at a line feed, and one carriage return right before the line feed belongs to the
ending. A text that does not end in a line feed has one more line, which keeps all its characters.
-/

namespace DelaySynth.Text

/-- The lines of a text, without their endings. -/
def lines : List Char → List (List Char)
  | [] => []
  | '\n' :: cs => [] :: lines cs
  | '\r' :: '\n' :: cs => [] :: lines cs
  | c :: cs =>
    -- `c` is the first character of the line that the rest begins with
    match lines cs with
    | [] => [[c]]
    | l :: ls => (c :: l) :: ls

example : lines ['a', '\r', '\n', '\n', 'b', '\r'] = [['a'], [], ['b', '\r']] := by decide

end DelaySynth.Text
