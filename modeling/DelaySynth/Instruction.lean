import DelaySynth.Text.Word

/-!
# Instructions

An instruction is a template of assembler text with an optional operand. The template may hold one
placeholder, the whole word `8b` or `16b`, and the operand takes its place when the instruction is
written out. So an immediate value never becomes a part of the template.
-/

namespace DelaySynth

/-- The place that a template leaves for an immediate operand. -/
inductive Placeholder where
  /-- A place for eight bits. -/
  | byte
  /-- A place for sixteen bits. -/
  | word
deriving DecidableEq, Repr

namespace Placeholder

/-- The word that marks the place in a template. -/
def token : Placeholder → String
  | byte => "8b"
  | word => "16b"

/-- The placeholder of a template. Where both words occur, the one for sixteen bits counts. -/
def find? (template : String) : Option Placeholder :=
  if Text.hasWord word.token.toList template.toList then some word
  else if Text.hasWord byte.token.toList template.toList then some byte
  else none

end Placeholder

/-- What takes the place of a placeholder. -/
inductive Operand where
  /-- An eight bit number. -/
  | byte (value : UInt8)
  /-- A sixteen bit number. -/
  | word (value : UInt16)
  /-- A memory address, as the caller wrote it. -/
  | address (text : String)
  /-- The target of a jump. -/
  | label (name : String)
deriving DecidableEq, Repr

/-- The operand as it stands in a listing. -/
def Operand.text : Operand → String
  | byte value => toString value.toNat
  | word value => toString value.toNat
  | address text => text
  | label name => name

/-- One machine instruction. -/
@[ext] structure Instruction where
  /-- The assembler text, with its placeholder. -/
  template : String
  /-- The placeholder of the template. -/
  placeholder? : Option Placeholder
  /-- What takes the place of the placeholder. -/
  operand? : Option Operand
  /-- The number of cycles that the instruction takes. -/
  duration : Nat
deriving DecidableEq, Repr, Inhabited

/-- The assembler text of an instruction, with the operand in the place of the placeholder. -/
def Instruction.text (i : Instruction) : String :=
  match i.placeholder?, i.operand? with
  | some p, some v =>
    String.ofList (Text.replaceWord p.token.toList v.text.toList i.template.toList)
  | _, _ => i.template

end DelaySynth
