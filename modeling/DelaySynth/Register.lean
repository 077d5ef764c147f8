/-!
# Registers

A register is named by a number. The numbers below `Register.count` are the general purpose
registers A, B, C, D, E, H and L in this order; a larger number names no register.
-/

namespace DelaySynth

/-- A register, named by its number. -/
@[ext] structure Register where
  /-- The number that names the register. -/
  number : Nat
deriving DecidableEq, Repr

namespace Register

/-- The number of registers that have a name. -/
def count : Nat := 7

/-- The register A. -/
abbrev a : Register := ⟨0⟩

/-- The register B. -/
abbrev b : Register := ⟨1⟩

/-- The register C. -/
abbrev c : Register := ⟨2⟩

/-- The register D. -/
abbrev d : Register := ⟨3⟩

/-- The register E. -/
abbrev e : Register := ⟨4⟩

/-- The register H. -/
abbrev h : Register := ⟨5⟩

/-- The register L. -/
abbrev l : Register := ⟨6⟩

/-- Tells whether the number names a register. -/
def Named (r : Register) : Prop := r.number < count

instance (r : Register) : Decidable r.Named := inferInstanceAs (Decidable (_ < _))

/-- The named registers in ascending order. -/
def all : List Register := (List.range count).map Register.mk

@[simp] theorem mem_all {r : Register} : r ∈ all ↔ r.Named := by
  obtain ⟨n⟩ := r
  simp [all, Named]

/-- The letters of the registers, in the order of their numbers. -/
def letters : List Char := ['A', 'B', 'C', 'D', 'E', 'H', 'L']

/-- The register with a letter. -/
def ofLetter? (c : Char) : Option Register :=
  (letters.idxOf? c).map Register.mk

/-- The register with a name, which is its letter. -/
def ofName? (name : String) : Option Register :=
  match name.toList with
  | [c] => ofLetter? c
  | _ => none

/-- The name of a register. -/
def name? (r : Register) : Option String :=
  letters[r.number]?.map String.singleton

/-- The name of a register, or a question mark for a number that names none. -/
def name (r : Register) : String :=
  r.name?.getD "?"

theorem ofName?_name : ∀ r ∈ all, ofName? r.name = some r := by decide +kernel

end Register

end DelaySynth
