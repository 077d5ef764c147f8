import DelaySynth.Proofs.Execution.Tagged
import Mathlib.Logic.Function.Basic
import Mathlib.Logic.Relation

/-!
# A machine that executes listings

The machine executes a tagged listing of the Intel 8085 line by line. An instruction costs what the
catalog says. A filler changes the registers that its row needs in any way, and the code around the
main part changes all registers in any way. Loading a counter and counting it down act on the counter
that the assembler text names, and the jump that closes a loop is taken to the place where its label is
defined, unless the counter has just become zero.

What is changed in any way is up to a function `choose` of the whole state, so a statement for all such
functions is one for all behaviours.

* `Counter.value_set`: a counter holds what it is set to, up to its size.
* `Passes`: code that the machine runs through, with its cycles, its path and what it preserves.
-/

namespace DelaySynth

/-! ## Counters -/

namespace Counter

/-- The number of values of a counter. -/
def size : Counter → Nat
  | wide _ _ => 0x10000
  | narrow _ => 0x100

/-- The value of a counter. -/
def value (regs : Register → UInt8) : Counter → Nat
  | wide high low => (regs high).toNat * 0x100 + (regs low).toNat
  | narrow r => (regs r).toNat

/-- Sets a counter to a value, of which only the lower bits fit. -/
def set (regs : Register → UInt8) (v : Nat) : Counter → Register → UInt8
  | wide high low =>
    Function.update (Function.update regs high (UInt8.ofNat (v / 0x100))) low (UInt8.ofNat v)
  | narrow r => Function.update regs r (UInt8.ofNat v)

/-- Counts a counter down by one; below zero comes its largest value. -/
def countDown (regs : Register → UInt8) (c : Counter) : Register → UInt8 :=
  c.set regs (c.value regs + (c.size - 1))

/-- The registers of a pair are two. -/
def Proper : Counter → Prop
  | wide high low => high ≠ low
  | narrow _ => True

variable {regs regs' : Register → UInt8} {c : Counter} {q : Register} {v : Nat}

theorem set_of_not_mem (h : q ∉ c.registers) : c.set regs v q = regs q := by
  cases c with
  | wide high low =>
    simp only [registers, List.mem_cons, List.not_mem_nil, or_false, not_or] at h
    rw [set, Function.update_of_ne h.2, Function.update_of_ne h.1]
  | narrow r =>
    simp only [registers, List.mem_singleton] at h
    rw [set, Function.update_of_ne h]

theorem value_set (h : c.Proper) : c.value (c.set regs v) = v % c.size := by
  cases c with
  | wide high low =>
    have hne : high ≠ low := h
    simp only [value, set, size, Function.update_self, Function.update_of_ne hne, UInt8.toNat_ofNat']
    omega
  | narrow r =>
    simp only [value, set, size, Function.update_self, UInt8.toNat_ofNat']

theorem value_congr (h : ∀ q ∈ c.registers, regs q = regs' q) : c.value regs = c.value regs' := by
  cases c with
  | wide high low =>
    rw [value, value, h high (by simp [registers]), h low (by simp [registers])]
  | narrow r =>
    rw [value, value, h r (by simp [registers])]

theorem value_countDown (h : c.Proper) (hv : c.value regs = v + 1) (hlt : v < c.size) :
    c.value (c.countDown regs) = v := by
  have hsize : 0 < c.size := by omega
  rw [countDown, value_set h, hv]
  have hsum : v + 1 + (c.size - 1) = v + c.size := by omega
  rw [hsum, Nat.add_mod_right, Nat.mod_eq_of_lt hlt]

end Counter

namespace I8085

open Register

/-! ## What the control instructions mean -/

/-- The instructions that load a counter, without the value. -/
def loads : List (String × Counter) :=
  [("LXI B,16b", .wide b c), ("LXI D,16b", .wide d e), ("LXI H,16b", .wide h l)] ++
    all.map fun r => ("MVI " ++ r.name ++ ",8b", .narrow r)

/-- The instructions that count a counter down. -/
def counts : List (String × Counter) :=
  [("DCX B", .wide b c), ("DCX D", .wide d e), ("DCX H", .wide h l)] ++
    all.map fun r => ("DCR " ++ r.name, .narrow r)

/-- The jump that closes a loop, without its label. -/
def jump : String := "JNZ 16b"

/-- The number that an instruction holds. -/
def immediate? (i : Instruction) : Option Nat :=
  match i.operand? with
  | some (.byte v) => some v.toNat
  | some (.word v) => some v.toNat
  | _ => none

/-- The line where the label is defined that an instruction holds. -/
def labelLine? (listing : List Item) (i : Instruction) : Option Nat :=
  match i.operand? with
  | some (.label name) => listing.findIdx? fun item => item.label? = some name
  | _ => none

/-! ## Steps -/

/-- What an instruction makes of the registers and the flag where nothing says what it does. -/
structure Choice where
  /-- The registers. -/
  regs : Register → UInt8
  /-- The flag. -/
  zero : Bool

/-- The state of an execution. -/
structure State where
  /-- The number of the line to be executed. -/
  line : Nat
  /-- The registers. -/
  regs : Register → UInt8
  /-- Whether a counter has just become zero. -/
  zero : Bool
  /-- The cycles spent. -/
  cycles : Nat
  /-- The lines visited, first to last. -/
  visited : List Nat

/-- What an instruction does, besides going on to the next line and spending its cycles. -/
def effect (listing : List Item) (needs : ResourceSet) (i : Instruction) (choice : Choice)
    (s : State) : Role → Option State
  | .around => some { s with regs := choice.regs, zero := choice.zero }
  | .filler =>
    some { s with regs := fun q => if q ∈ needs then choice.regs q else s.regs q
                  zero := choice.zero }
  | .init => do
    let c ← loads.lookup i.template
    let v ← immediate? i
    return { s with regs := c.set s.regs v }
  | .decrement => do
    let c ← counts.lookup i.template
    let regs := c.countDown s.regs
    return { s with regs, zero := decide (c.value regs = 0) }
  | .branch =>
    if i.template ≠ jump then none
    else if s.zero then some s
    else (labelLine? listing i).map fun line => { s with line }

/-- The state after the line has been visited and the next one is to be executed. -/
def State.advance (s : State) (cycles : Nat) : State :=
  { s with line := s.line + 1, cycles := s.cycles + cycles, visited := s.visited ++ [s.line] }

/-- Executes a line. There is no step behind the end of the listing, nor where an instruction is not
in the catalog or does not mean anything in its role. -/
def step? (listing : List Item) (choose : State → Choice) (s : State) : Option State := do
  match ← listing[s.line]? with
  | .label _ => return s.advance 0
  | .instr role i =>
    let row ← (catalog.lookup i.template).toOption
    effect listing row.needs i (choose s) (s.advance row.duration) role

/-- Any number of steps. -/
def Reaches (listing : List Item) (choose : State → Choice) : State → State → Prop :=
  Relation.ReflTransGen fun s t => step? listing choose s = some t

/-- From its first line on, the machine runs through a piece of code: it spends `cycles`, takes the
`path`, ends `length` lines further and preserves the registers `keep`. -/
def Passes (listing : List Item) (choose : State → Choice) (keep : List Register)
    (start length cycles : Nat) (path : List Nat) : Prop :=
  ∀ s : State, s.line = start → ∃ t, Reaches listing choose s t ∧ t.line = start + length ∧
    t.cycles = s.cycles + cycles ∧ t.visited = s.visited ++ path ∧ ∀ q ∈ keep, t.regs q = s.regs q

end I8085

end DelaySynth
