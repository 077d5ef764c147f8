import DelaySynth.Target.Basic

/-!
# Machines

A machine is a catalog together with a target. The target names the instructions that loops, returns
and the saving of registers need, and the catalog tells what they cost. A template that the catalog
does not list is an error, whatever the grant.
-/

namespace DelaySynth

/-- A catalog together with a target. -/
structure Machine where
  /-- The instruction table. -/
  catalog : Catalog
  /-- What is to be known of the processor. -/
  target : Target

/-- What a loop costs besides its body. -/
structure LoopOverhead where
  /-- The cycles that load the counter. -/
  init : Nat
  /-- The cycles of the decrement and the branch, spent in every iteration. -/
  perIteration : Nat
deriving DecidableEq, Repr

namespace Machine

/-- The instruction with a template and an operand. -/
def instruction (m : Machine) (template : String) (operand? : Option Operand) :
    Except CatalogError Instruction :=
  return (← m.catalog.lookup template).instantiate operand?

/-- The cost of a loop on a counter. -/
def overhead (m : Machine) (width : CounterWidth) (counter : Register) :
    Except CatalogError LoopOverhead := do
  let init ← m.catalog.lookup (m.target.initTemplate width counter)
  let decrement ← m.catalog.lookup (m.target.decrementTemplate width counter)
  let branch ← m.catalog.lookup m.target.branchTemplate
  return { init := init.duration, perIteration := decrement.duration + branch.duration }

/-- Loads a counter; of the count only the bits that fit the counter enter the instruction. -/
def loopInit (m : Machine) (width : CounterWidth) (counter : Register) (iterations : Nat) :
    Except CatalogError Instruction :=
  let operand :=
    match width with
    | .wide => Operand.word (UInt16.ofNat iterations)
    | .narrow => Operand.byte (UInt8.ofNat iterations)
  m.instruction (m.target.initTemplate width counter) (some operand)

/-- Counts a counter down. -/
def decrement (m : Machine) (width : CounterWidth) (counter : Register) :
    Except CatalogError Instruction :=
  m.instruction (m.target.decrementTemplate width counter) none

/-- Jumps to a label while the counter is not zero. -/
def branch (m : Machine) (label : String) : Except CatalogError Instruction :=
  m.instruction m.target.branchTemplate (some (.label label))

/-- Returns to the caller. -/
def ret (m : Machine) : Except CatalogError Instruction :=
  m.instruction m.target.returnTemplate none

/-- Copies `src` into `dest`. -/
def move (m : Machine) (dest src : Register) : Except CatalogError Instruction :=
  m.instruction (m.target.moveTemplate dest src) none

/-- Saves a register on the stack, or nothing if the target cannot. -/
def push? (m : Machine) (r : Register) : Except CatalogError (Option Instruction) :=
  (m.target.pushTemplate? r).mapM fun template => m.instruction template none

/-- Restores a register from the stack, or nothing if the target cannot. -/
def pop? (m : Machine) (r : Register) : Except CatalogError (Option Instruction) :=
  (m.target.popTemplate? r).mapM fun template => m.instruction template none

/-- Loads the primary register from an address. -/
def load (m : Machine) (address : String) : Except CatalogError Instruction :=
  m.instruction m.target.loadTemplate (some (.address address))

/-- Stores the primary register at an address. -/
def store (m : Machine) (address : String) : Except CatalogError Instruction :=
  m.instruction m.target.storeTemplate (some (.address address))

end Machine

end DelaySynth
