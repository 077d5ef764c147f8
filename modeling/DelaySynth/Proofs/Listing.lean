import DelaySynth.Code.Listing
import DelaySynth.Proofs.Text

/-!
# Reading listings back

The lines of a listing are what was written, one by one, as long as no label and no instruction breaks
its line. A line with a label ends in a colon, so if no instruction does, counting the other lines gives
the length of the code.

* `Line.Plain`: lines that can be told apart in a listing.
* `Line.lines_render`: the lines of a written listing.
* `Code.countP_lines`: the code has as many instructions as its listing.
* `Code.countInstructionLines_render`: the count of a written listing is the length of the code.
-/

namespace DelaySynth

namespace Line

/-- The line as it is written, without its ending. -/
def content : Line → List Char
  | label name => name.toList ++ [':']
  | instr i => '\t' :: i.text.toList

/-- The line holds an instruction. -/
def isInstr : Line → Bool
  | label _ => false
  | instr _ => true

/-- What the line holds stays on one line, and an instruction does not end in a colon, blanks aside. -/
def Plain : Line → Prop
  | label name => '\n' ∉ name.toList
  | instr i => '\n' ∉ i.text.toList ∧ (Text.trimEnd i.text.toList).getLast? ≠ some ':'

instance : (l : Line) → Decidable l.Plain
  | label _ => inferInstanceAs (Decidable (_ ∉ _))
  | instr _ => inferInstanceAs (Decidable (_ ∧ _))

theorem toList_text (l : Line) : l.text.toList = l.content ++ ['\n'] := by
  cases l <;> simp [text, content]

theorem Plain.newline_notMem {l : Line} (h : l.Plain) : '\n' ∉ l.content := by
  cases l with
  | label name => simpa [content, Plain] using h
  | instr i => simpa [content] using h.1

theorem toList_render_cons (l : Line) (ls : List Line) :
    (render (l :: ls)).toList = l.content ++ '\n' :: (render ls).toList := by
  simp [render, toList_text]

/-- A listing is read line by line. -/
theorem lines_render {ls : List Line} (h : ∀ l ∈ ls, l.Plain) :
    Text.lines (render ls).toList = ls.map fun l => Text.withoutReturn l.content := by
  induction ls with
  | nil => rfl
  | cons l ls ih =>
    obtain ⟨hl, hls⟩ := List.forall_mem_cons.mp h
    rw [toList_render_cons, Text.lines_append_newline hl.newline_notMem, ih hls, List.map_cons]

/-- A line is counted if and only if it holds an instruction. -/
theorem Plain.counted_iff {l : Line} (h : l.Plain) :
    (!(Text.withoutReturn l.content).isEmpty &&
      (Text.trimEnd (Text.withoutReturn l.content)).getLast? != some ':') = l.isInstr := by
  rw [Text.getLast?_trimEnd_withoutReturn]
  cases l with
  | label name =>
    have hcolon : (Text.trimEnd (content (label name))).getLast? = some ':' := by
      rw [Text.getLast?_trimEnd, content, List.reverse_concat]
      rfl
    simp [hcolon, isInstr]
  | instr i =>
    have hend : (Text.trimEnd (content (instr i))).getLast? ≠ some ':' := by
      rw [content, Text.getLast?_trimEnd_cons (by decide)]
      exact h.2
    -- An instruction without a text is counted as well, for there is a tab in front of it.
    have hkept : Text.withoutReturn (content (instr i)) ≠ [] :=
      Text.withoutReturn_cons_ne_nil (by decide) _
    simp [hend, hkept, isInstr]

end Line

/-! ## Code -/

mutual

/-- The code has as many instructions as its listing. -/
theorem Code.countP_lines : (c : Code) → c.lines.countP Line.isInstr = c.length
  | .instr i => by
    rw [Code.lines, Code.length]
    rfl
  | .group g => by rw [Code.lines, Code.length, Group.countP_lines]
  | .loop l => by rw [Code.lines, Code.length, Loop.countP_lines]
  | .routine r => by rw [Code.lines, Code.length, Routine.countP_lines]

theorem Group.countP_lines : (g : Group Code) → g.lines.countP Line.isInstr = g.length
  | ⟨items, _⟩ => by rw [Group.lines, Group.length, Code.countP_allLines]

/-- The label is the one line of a loop, besides those of its body, that holds no instruction. -/
theorem Loop.countP_lines : (l : Loop Code) → l.lines.countP Line.isInstr = l.length
  | ⟨init, body, decrement, branch, label, _⟩ => by
    have hbody := Code.countP_lines body
    rw [Loop.lines, Loop.length]
    simp [List.countP_cons, Line.isInstr, hbody]
    omega

theorem Routine.countP_lines : (r : Routine Code) → r.lines.countP Line.isInstr = r.length
  | ⟨save, main, restore, ret?⟩ => by
    have hret : (ret?.toList.map Line.instr).countP Line.isInstr = ret?.toList.length := by
      cases ret? <;> rfl
    rw [Routine.lines, Routine.length, List.countP_append, List.countP_append, List.countP_append,
      Group.countP_lines, Code.countP_lines, Group.countP_lines, hret]

theorem Code.countP_allLines :
    (cs : List Code) → (Code.allLines cs).countP Line.isInstr = Code.totalLength cs
  | [] => by rw [Code.allLines, Code.totalLength, List.countP_nil]
  | c :: cs => by
    rw [Code.allLines, Code.totalLength, List.countP_append, Code.countP_lines,
      Code.countP_allLines]

end

/-- The number of instruction lines of a written listing is the number of instructions of the code, if
its labels have no line feed in them and its instructions neither have one nor end in a colon. -/
theorem Code.countInstructionLines_render {c : Code} (h : ∀ l ∈ c.lines, l.Plain) :
    countInstructionLines c.render = c.length := by
  unfold countInstructionLines Code.render
  rw [Line.lines_render h, List.countP_map, ← Code.countP_lines]
  refine List.countP_congr fun l hl => ?_
  rw [Function.comp_apply, (h l hl).counted_iff]

/-- Two loops inside each other, in a routine that saves a register. One instruction ends in a carriage
return, which is read as a part of the ending of its line. -/
theorem Code.countInstructionLines_render_nested : ∃ c : Code, (∀ l ∈ c.lines, l.Plain) ∧
    c.render = "\tPUSH B\n\tMVI B,2\nouter:\n\tMVI C,3\ninner:\n\tNOP\r\n\tDCR C\n\tJNZ inner\n" ++
      "\tDCR B\n\tJNZ outer\n\tPOP B\n\tRET\n" ∧
    countInstructionLines c.render = c.length ∧ c.length = 10 := by
  let plain (text : String) : Instruction := ⟨text, none, none, 4⟩
  let inner : Loop Code := {
    init := plain "MVI C,3", body := .instr (plain "NOP\r"), decrement := plain "DCR C"
    branch := plain "JNZ inner", label := "inner", iterations := 3 }
  let outer : Loop Code := {
    init := plain "MVI B,2", body := .group { items := [.loop inner] }, decrement := plain "DCR B"
    branch := plain "JNZ outer", label := "outer", iterations := 2 }
  let routine : Routine Code := {
    save := { items := [.instr (plain "PUSH B")] }, main := .loop outer
    restore := { items := [.instr (plain "POP B")] }, ret? := some (plain "RET") }
  have hplain : ∀ l ∈ (Code.routine routine).lines, l.Plain := by decide +kernel
  exact ⟨.routine routine, hplain, by decide +kernel, countInstructionLines_render hplain,
    by decide +kernel⟩

end DelaySynth
