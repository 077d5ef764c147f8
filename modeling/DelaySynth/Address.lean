import DelaySynth.Text.Blank
import DelaySynth.Text.Numeral
import DelaySynth.WordSize

/-!
# Memory addresses

A caller writes an address as text. It stands in the listing as it was written; its value matters
only for finding two cells that lie side by side.
-/

namespace DelaySynth.Address

/-- The value of an address written as `2000H` or `0x2000` in base sixteen, or in base ten. Blanks
around it do not count, and a text that is none of these, such as a label, has no value. -/
def value? (text : String) : Option Nat :=
  let cs := Text.trim text.toList
  match cs.reverse with
  | 'H' :: ds => Text.natural? 16 bound32 ds.reverse
  | 'h' :: ds => Text.natural? 16 bound32 ds.reverse
  | _ =>
    match cs with
    | '0' :: 'x' :: ds => Text.natural? 16 bound32 ds
    | '0' :: 'X' :: ds => Text.natural? 16 bound32 ds
    | ds => Text.natural? 10 bound32 ds

/-- The first address of the list whose upper neighbour is also in the list, as it was written. -/
def adjacentPair? (addresses : List String) : Option String :=
  addresses.find? fun a =>
    (value? a).any fun v => addresses.any fun b => value? b == some (v + 1)

example : adjacentPair? ["3001H", "10", "3000H"] = some "3000H" := by decide +kernel

end DelaySynth.Address
