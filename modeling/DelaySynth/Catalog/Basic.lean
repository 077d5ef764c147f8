import DelaySynth.Catalog.Error
import DelaySynth.Instruction
import DelaySynth.Resource

/-!
# Instruction catalogs

A catalog is the instruction table of one machine. A row gives a template, what the instruction costs
and needs, and whether it may stand anywhere as filler; other rows serve only at places where the
synthesizer knows what they do.

The synthesizer needs one way to spend each duration, so of the rows that a grant admits
`Catalog.available` keeps the first of each duration.
-/

namespace DelaySynth

/-- One row of a catalog. -/
@[ext] structure Row where
  /-- The assembler text, with its placeholder. -/
  template : String
  /-- The number of cycles. -/
  duration : Nat
  /-- The number of bytes. -/
  size : Nat
  /-- What the instruction changes or touches. -/
  needs : ResourceSet
  /-- Whether the instruction may be used as filler. -/
  usable : Bool := true
deriving DecidableEq, Repr, Inhabited

namespace Row

/-- The placeholder of the row's template. -/
def placeholder? (r : Row) : Option Placeholder :=
  Placeholder.find? r.template

/-- The instruction of a row with an operand, which is dropped if the template has no place for it. -/
def instantiate (r : Row) (operand? : Option Operand) : Instruction where
  template := r.template
  placeholder? := r.placeholder?
  operand? := if r.placeholder?.isSome then operand? else none
  duration := r.duration

/-- The address that an instruction of this row accesses as filler: the first granted one, or the
lower one of two neighbours if it touches two cells. -/
def fillerAddress? (r : Row) (memory : List String) : Option String :=
  match r.needs.memoryCount with
  | 0 => none
  | 1 => memory.head?
  | _ => Address.adjacentPair? memory

/-- The instruction of a row where only its duration matters. Immediate operands are zero, except for
the address of an instruction that accesses memory. -/
def filler (memory : List String) (r : Row) : Instruction :=
  match r.placeholder?, r.fillerAddress? memory with
  | some .word, some address => r.instantiate (some (.address address))
  | some .word, none => r.instantiate (some (.word 0))
  | some .byte, _ => r.instantiate (some (.byte 0))
  | none, _ => r.instantiate none

@[simp] theorem duration_instantiate (r : Row) (operand? : Option Operand) :
    (r.instantiate operand?).duration = r.duration := rfl

@[simp] theorem template_filler (memory : List String) (r : Row) :
    (r.filler memory).template = r.template := by
  rw [filler]; split <;> rfl

@[simp] theorem duration_filler (memory : List String) (r : Row) :
    (r.filler memory).duration = r.duration := by
  rw [filler]; split <;> rfl

/-- Tells whether a row may be used as filler under a grant. -/
def Admissible (granted : ResourceSet) (r : Row) : Prop :=
  r.usable = true ∧ r.needs ⊆ granted

instance (granted : ResourceSet) (r : Row) : Decidable (r.Admissible granted) :=
  inferInstanceAs (Decidable (_ ∧ _))

/-- The rows of a list whose duration no earlier row has. -/
def firstPerDuration : List Row → List Row
  | [] => []
  | r :: rs => r :: (firstPerDuration rs).filter fun s => s.duration ≠ r.duration

end Row

/-- The instruction table of a machine. -/
@[ext] structure Catalog where
  /-- The rows, in the order in which they were listed. -/
  rows : List Row
deriving DecidableEq, Repr, Inhabited

namespace Catalog

/-- The first row with a template, placeholder included. -/
def lookup (c : Catalog) (template : String) : Except CatalogError Row :=
  match c.rows.find? fun r => r.template == template with
  | some r => .ok r
  | none => .error (.notFound template)

/-- The rows that may be used as filler under a grant, one for each duration. Which of several rows of
one duration is kept shows in the text of a routine and never in its timing. -/
def available (c : Catalog) (granted : ResourceSet) : List Row :=
  Row.firstPerDuration (c.rows.filter fun r => r.Admissible granted)

end Catalog

end DelaySynth
