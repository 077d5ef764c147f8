import DelaySynth.Catalog.Basic
import DelaySynth.Text.Lines
import DelaySynth.WordSize

/-!
# Written catalogs

A catalog is written as a text in which everything up to a line reading `BEGIN` is free. Each line
from there to a line reading `END` is a row of seven fields:

    template ; duration ; size ; registers ; memory cells ; stack ; use
    MVI B,8b ; 7        ; 2    ; B         ; 0            ; 0     ; +

Lines of fewer than four bytes and lines that start with `#` are no rows. A dash in the last field
keeps the instruction from being used as filler. One malformed row spoils the whole catalog, and the
first one is blamed.
-/

namespace DelaySynth

/-- Reads a row from the text of a line. -/
def Row.ofLine (line : List Char) : Except RowFault Row :=
  match (line.splitOn ';').map Text.trim with
  | [template, duration, size, registers, memory, stack, use] => do
    if template.isEmpty then throw .emptyTemplate
    let some cycles := Text.natural? 10 bound64 duration
      | throw (.invalidDuration (String.ofList duration))
    if cycles = 0 then throw (.zeroDuration (String.ofList template))
    let some bytes := Text.natural? 10 bound32 size
      | throw (.invalidSize (String.ofList size))
    let some needs := ResourceSet.ofColumns? registers memory stack
      | throw (.invalidResources (String.ofList memory) (String.ofList stack))
    return {
      template := String.ofList template
      duration := cycles
      size := bytes
      needs
      usable := use != ['-'] }
  | fields => .error (.fieldCount fields.length)

namespace Catalog

/-- Tells whether a line, without the blanks at its end, is meant as a row. -/
def isRow (line : List Char) : Bool :=
  4 ≤ (String.ofList line).utf8ByteSize && (Text.trimStart line).head? != some '#'

/-- The lines of a text that are meant as rows, without the blanks at their ends and with their
numbers, or nothing if no line opens the table. -/
def tableLines? (text : List Char) : Option (List (List Char × Nat)) :=
  let lines := (Text.lines text).zipIdx 1
  match lines.dropWhile fun l => Text.trim l.1 != ['B', 'E', 'G', 'I', 'N'] with
  | [] => none
  | _ :: body =>
    let table := body.takeWhile fun l => Text.trim l.1 != ['E', 'N', 'D']
    some ((table.map fun l => (Text.trimEnd l.1, l.2)).filter fun l => isRow l.1)

/-- Reads a numbered line as a row. -/
def rowOfLine (line : List Char × Nat) : Except CatalogError Row :=
  match Row.ofLine line.1 with
  | .ok row => .ok row
  | .error fault => .error (.malformedRow line.2 fault.message)

/-- Reads the rows of a written catalog. -/
def rowsOfText (text : List Char) : Except CatalogError (List Row) := do
  let some lines := tableLines? text | throw .missingBegin
  let rows ← lines.mapM rowOfLine
  if rows.isEmpty then throw .noInstructions
  return rows

/-- Reads a written catalog. -/
def ofText (text : String) : Except CatalogError Catalog :=
  (rowsOfText text.toList).map Catalog.mk

/-- Reads a written catalog from the bytes of a file. -/
def ofBytes (bytes : ByteArray) : Except CatalogError Catalog :=
  match String.fromUTF8? bytes with
  | some text => ofText text
  | none => .error (.unreadable "stream did not contain valid UTF-8")

/-! ## Overview -/

/-- The text, filled up with spaces behind it. -/
def padEnd (width : Nat) (s : String) : String :=
  s ++ "".pushn ' ' (width - s.length)

/-- The text, filled up with spaces in front of it. -/
def padStart (width : Nat) (s : String) : String :=
  "".pushn ' ' (width - s.length) ++ s

/-- One line about a row. -/
def describeRow (r : Row) : String :=
  padEnd 12 r.template ++ " " ++ padStart 3 (toString r.duration) ++ "T " ++ toString r.size ++ "B "
    ++ toString r.needs ++ (if r.usable then "" else " (scaffold only)") ++ "\n"

/-- One line about each row. -/
def describe (c : Catalog) : String :=
  String.join (c.rows.map describeRow)

end Catalog

end DelaySynth
