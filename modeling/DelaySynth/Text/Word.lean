/-!
# Words of a text

A text is cut into words, the longest runs of ASCII letters and digits, and single characters that
belong to no word. A search or a replacement of a whole word works on that cut, so it never touches
a part of a longer word.
-/

namespace DelaySynth.Text

/-- A piece of a text. -/
inductive Segment where
  /-- A longest run of ASCII letters and digits. -/
  | word (cs : List Char)
  /-- A character outside every word. -/
  | other (c : Char)
deriving DecidableEq, Repr

namespace Segment

/-- The characters of the piece. -/
def chars : Segment → List Char
  | word cs => cs
  | other c => [c]

/-- Puts a letter or digit in front of a cut text, where it joins a word that the text begins with. -/
def consWord (c : Char) : List Segment → List Segment
  | word cs :: ss => word (c :: cs) :: ss
  | ss => word [c] :: ss

/-- The cut of a text into words and other characters. -/
def ofText : List Char → List Segment
  | [] => []
  | c :: cs => if c.isAlphanum then consWord c (ofText cs) else other c :: ofText cs

/-- The text that was cut. -/
def toText (ss : List Segment) : List Char :=
  ss.flatMap chars

@[simp] theorem toText_consWord (c : Char) (ss : List Segment) :
    toText (consWord c ss) = c :: toText ss := by
  rcases ss with _ | ⟨_ | _, _⟩ <;> simp [consWord, toText, chars]

/-- Cutting loses nothing. -/
@[simp] theorem toText_ofText (cs : List Char) : toText (ofText cs) = cs := by
  induction cs with
  | nil => rfl
  | cons c cs ih =>
    rw [ofText]
    split
    · rw [toText_consWord, ih]
    · simpa [toText, chars] using ih

/-- Puts `value` in the place of the first word that is `token`. -/
def replaceFirst (token value : List Char) : List Segment → List Char
  | [] => []
  | s :: ss => if s = word token then value ++ toText ss else s.chars ++ replaceFirst token value ss

end Segment

/-- Tells whether `token` is a whole word of the text. -/
def hasWord (token cs : List Char) : Bool :=
  (Segment.ofText cs).contains (.word token)

/-- The text with its first whole word `token` replaced by `value`. -/
def replaceWord (token value cs : List Char) : List Char :=
  Segment.replaceFirst token value (Segment.ofText cs)

example : replaceWord ['8', 'b'] ['7'] ['8', 'b', 'x', ',', '8', 'b'] =
    ['8', 'b', 'x', ',', '7'] := by decide

end DelaySynth.Text
