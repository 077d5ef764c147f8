import DelaySynth.Catalog.Basic

/-!
# Targets

A target is what the synthesizer has to know of a processor besides its instruction table: which
registers can count loops, in which order they are preferred, and the templates of the instructions
that loops, returns and the saving of registers are made of.
-/

namespace DelaySynth

/-- The width of a loop counter. -/
inductive CounterWidth where
  /-- A pair of registers that counts sixteen bits. -/
  | wide
  /-- A register that counts eight bits. -/
  | narrow
deriving DecidableEq, Repr

/-- The width in words. -/
def CounterWidth.name : CounterWidth → String
  | wide => "wide"
  | narrow => "narrow"

/-- What is to be known of a processor. -/
structure Target where
  /-- The name under which the target is chosen. -/
  id : String
  /-- Other names for it. -/
  aliases : List String := []
  /-- The instruction table that comes with it. -/
  catalog : Catalog
  /-- The register pairs that can count, as high and low register, the most preferred one first. -/
  wideCounters : List (Register × Register)
  /-- The registers that can count, the most preferred one first. -/
  narrowCounters : List Register
  /-- The largest count that a counter can hold. -/
  maxIterations : CounterWidth → Nat
  /-- The register through which memory is loaded and stored. -/
  primary : Register
  /-- Loads a counter, which is named by its register or by the high register of its pair. -/
  initTemplate : CounterWidth → Register → String
  /-- Counts a counter down by one. -/
  decrementTemplate : CounterWidth → Register → String
  /-- Jumps unless the counter has just become zero. -/
  branchTemplate : String
  /-- Returns to the caller. -/
  returnTemplate : String
  /-- Copies a register into another. -/
  moveTemplate : (dest src : Register) → String
  /-- Saves a register on the stack, if it can be saved there. -/
  pushTemplate? : Register → Option String
  /-- Restores a register from the stack. -/
  popTemplate? : Register → Option String
  /-- Loads the primary register from memory. -/
  loadTemplate : String
  /-- Stores the primary register to memory. -/
  storeTemplate : String
  /-- The label of a loop at a nesting depth. -/
  loopLabel : Nat → String := fun depth => "loop" ++ toString depth

end DelaySynth
