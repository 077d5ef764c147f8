import DelaySynth.Text.Blank
import DelaySynth.Text.Numeral
import DelaySynth.Register

/-!
# Resource sets

A resource set says which parts of the machine a piece of code needs, or which parts a caller
grants. It is a word of sixteen bits: bits 0 to 6 stand for the registers, bit 7 for one memory
cell, bit 8 for a second memory cell next to the first, and bit 9 for the stack. The bits above have
no meaning, but they are kept and compared like the others.

Code whose needs are `s` may run under a grant `t` when `s ⊆ t`, which is one test on the words.
-/

namespace DelaySynth

/-- A set of registers together with a count of memory cells and the use of the stack. -/
@[ext] structure ResourceSet where
  /-- The word that holds the set. -/
  bits : BitVec 16
deriving DecidableEq, Repr

namespace ResourceSet

/-- The bit that stands for one memory cell. -/
abbrev memoryBit : Nat := 7

/-- The bit that stands for a second memory cell, next to the first. -/
abbrev pairBit : Nat := 8

/-- The bit that stands for the stack. -/
abbrev stackBit : Nat := 9

instance : EmptyCollection ResourceSet := ⟨⟨0⟩⟩

instance : Inhabited ResourceSet := ⟨∅⟩

/-- A register is in a set when its bit is; no other number is in any set. -/
instance : Membership Register ResourceSet where
  mem s r := r.Named ∧ s.bits.getLsbD r.number = true

instance (r : Register) (s : ResourceSet) : Decidable (r ∈ s) :=
  inferInstanceAs (Decidable (r.Named ∧ s.bits.getLsbD r.number = true))

/-- The needs `s` are met by the grant `t` when every bit of `s` is a bit of `t`. -/
instance : HasSubset ResourceSet where
  Subset s t := s.bits &&& t.bits = s.bits

instance (s t : ResourceSet) : Decidable (s ⊆ t) :=
  inferInstanceAs (Decidable (s.bits &&& t.bits = s.bits))

/-- The set with one more bit. -/
def addBit (s : ResourceSet) (i : Nat) : ResourceSet :=
  ⟨s.bits ||| BitVec.twoPow 16 i⟩

/-- The set with one more register; a number that names no register changes nothing. -/
def insert (s : ResourceSet) (r : Register) : ResourceSet :=
  if r.Named then s.addBit r.number else s

/-- The set without a register. -/
def erase (s : ResourceSet) (r : Register) : ResourceSet :=
  if r.Named then ⟨s.bits &&& ~~~BitVec.twoPow 16 r.number⟩ else s

/-- The set with room for `n` memory cells; two is the most that a set can express. -/
def addMemory (s : ResourceSet) : Nat → ResourceSet
  | 0 => s
  | 1 => s.addBit memoryBit
  | _ => (s.addBit memoryBit).addBit pairBit

/-- The set with the stack. -/
def addStack (s : ResourceSet) : ResourceSet :=
  s.addBit stackBit

/-- The registers of a set, in ascending order. -/
def registers (s : ResourceSet) : List Register :=
  Register.all.filter (· ∈ s)

/-- The number of registers in a set. -/
def registerCount (s : ResourceSet) : Nat :=
  s.registers.length

/-- The number of memory bits in a set. -/
def memoryCount (s : ResourceSet) : Nat :=
  (s.bits.getLsbD memoryBit).toNat + (s.bits.getLsbD pairBit).toNat

/-- Tells whether the stack is in a set. -/
def hasStack (s : ResourceSet) : Bool :=
  s.bits.getLsbD stackBit

@[simp] theorem mem_registers {r : Register} {s : ResourceSet} : r ∈ s.registers ↔ r ∈ s := by
  simp only [registers, List.mem_filter, Register.mem_all, decide_eq_true_eq]
  exact ⟨fun h => h.2, fun h => ⟨h.1, h⟩⟩

instance : ToString ResourceSet where
  toString s :=
    let names := String.join (s.registers.map Register.name)
    let shown := if s.registers.isEmpty then "-" else names
    let stack := if s.hasStack then " stack" else ""
    "regs=" ++ shown ++ " mem=" ++ toString s.memoryCount ++ stack

/-! ## The resource columns of a catalog -/

/-- Reads the three resource columns of a catalog row: register letters, a count of memory cells up
to two, and a stack flag of zero or one. Other letters among the registers are ignored, so flags and
a dash may stand there. -/
def ofColumns? (registers memory stack : List Char) : Option ResourceSet := do
  let s := (registers.filterMap Register.ofLetter?).foldl insert ∅
  let cells ← Text.natural? 10 3 (Text.trim memory)
  match Text.trim stack with
  | ['0'] => some (s.addMemory cells)
  | ['1'] => some (s.addMemory cells).addStack
  | _ => none

end ResourceSet

end DelaySynth
