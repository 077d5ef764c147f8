import DelaySynth.Code.Basic
import DelaySynth.Text.Blank
import DelaySynth.Text.Lines

/-!
# Listings

The listing of a piece of code holds one instruction a line, behind a tab. The label of a loop stands
on a line of its own, right before the first instruction of the body, and ends in a colon.
-/

namespace DelaySynth

/-- One line of a listing. -/
inductive Line where
  /-- A label. -/
  | label (name : String)
  /-- An instruction. -/
  | instr (i : Instruction)
deriving DecidableEq, Repr

/-- The line as it is written, with its ending. -/
def Line.text : Line → String
  | label name => name ++ ":\n"
  | instr i => "\t" ++ i.text ++ "\n"

mutual

/-- The lines of a piece of code. -/
def Code.lines : Code → List Line
  | .instr i => [.instr i]
  | .group g => g.lines
  | .loop l => l.lines
  | .routine r => r.lines

/-- The lines of all pieces, first to last. -/
def Group.lines : Group Code → List Line
  | ⟨items, _⟩ => Code.allLines items

/-- The load of the counter, the label, the body and the two instructions that close the loop. -/
def Loop.lines : Loop Code → List Line
  | ⟨init, body, decrement, branch, label, _⟩ =>
    .instr init :: .label label :: (body.lines ++ [.instr decrement, .instr branch])

/-- The lines of all parts, in the order in which they run. -/
def Routine.lines : Routine Code → List Line
  | ⟨save, main, restore, ret?⟩ =>
    save.lines ++ main.lines ++ restore.lines ++ ret?.toList.map .instr

/-- The lines of a list of pieces. -/
def Code.allLines : List Code → List Line
  | [] => []
  | c :: cs => c.lines ++ Code.allLines cs

end

/-- The text of a listing. -/
def Line.render (ls : List Line) : String :=
  String.join (ls.map Line.text)

/-- The listing of a piece of code. -/
def Code.render (c : Code) : String := Line.render c.lines

/-- The listing of a group. -/
def Group.render (g : Group Code) : String := Line.render g.lines

/-- The listing of a routine. -/
def Routine.render (r : Routine Code) : String := Line.render r.lines

/-- The number of lines of a listing that hold an instruction: those that are not empty and do not
end in a colon, blanks at the end aside. -/
def countInstructionLines (listing : String) : Nat :=
  (Text.lines listing.toList).countP fun l =>
    !l.isEmpty && (Text.trimEnd l).getLast? != some ':'

end DelaySynth
