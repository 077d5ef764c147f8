import DelaySynth.Code.Basic
import DelaySynth.Machine

/-!
# Freeing registers

A register that the caller did not grant can still count a loop if it is saved before and restored
after. It is saved in a granted memory cell, which is then used up, or else on the stack. Memory is
reached through the primary register alone, so another register is copied there first. A push may
save two registers at once, and it is not repeated for the second.

A frame holds what the routine does before and after its main part, together with the resources that
are left for that part. Restoring runs in the opposite order of saving.
-/

namespace DelaySynth

/-- The parts of a routine around its main part, and the resources for that part. -/
structure Frame where
  /-- What the main part may touch. -/
  resources : List Resource
  /-- What runs before the main part. -/
  save : Group Code := {}
  /-- What runs after it. -/
  restore : Group Code := {}
deriving DecidableEq

/-- How an attempt to free a register ends. -/
inductive SpillOutcome where
  /-- The register is saved in memory. -/
  | memory (r : Register)
  /-- The register is saved on the stack. -/
  | stack (r : Register)
  /-- All registers are granted already. -/
  | nothingToFree
  /-- There is no place where a register could be saved. -/
  | infeasible
deriving DecidableEq, Repr

/-- A change of a frame that may fail, and that keeps what was done before the failure. -/
abbrev FrameM := EStateM CatalogError Frame

namespace Frame

/-- The lowest register that a grant lacks. -/
def lowestUngranted? (granted : ResourceSet) : Option Register :=
  Register.all.find? fun r => r ∉ granted

/-- Exchanges the first memory cell that a list offers for a register, and tells the cell's address. -/
def exchangeMemory? (name : String) : List Resource → Option (String × List Resource)
  | [] => none
  | r :: rs =>
    match r.address? with
    | some address => some (address, Resource.register name :: rs)
    | none => (exchangeMemory? name rs).map fun p => (p.1, r :: p.2)

/-- Adds an instruction to the end of the saving part. -/
def appendSave (i : Except CatalogError Instruction) : FrameM Unit := do
  match i with
  | .ok i => modify fun f => { f with save := f.save.append i }
  | .error e => throw e

/-- Adds an instruction to the front of the restoring part. -/
def prependRestore (i : Except CatalogError Instruction) : FrameM Unit := do
  match i with
  | .ok i => modify fun f => { f with restore := f.restore.prepend i }
  | .error e => throw e

/-- Saves a register in the cell at an address and restores it from there. -/
def spillToMemory (m : Machine) (r : Register) (address : String) : FrameM Unit := do
  let primary := m.target.primary
  if r ≠ primary then appendSave (m.move primary r)
  appendSave (m.store address)
  if r ≠ primary then prependRestore (m.move r primary)
  prependRestore (m.load address)

/-- Saves a register by a push and restores it by a pop, unless the frame does so already. -/
def spillToStack (push pop : Instruction) : FrameM Unit := do
  unless (← get).save.items.contains (.instr push) do appendSave (.ok push)
  unless (← get).restore.items.contains (.instr pop) do prependRestore (.ok pop)

/-- The push and the pop of a register, if the target has both. -/
def stackPair? (m : Machine) (r : Register) :
    Except CatalogError (Option (Instruction × Instruction)) := do
  match ← m.push? r, ← m.pop? r with
  | some push, some pop => return some (push, pop)
  | _, _ => return none

/-- Attempts to free the lowest register that is not granted. -/
def spill (m : Machine) : FrameM SpillOutcome := do
  let f ← get
  let some r := lowestUngranted? (ResourceSet.ofResources f.resources) | return .nothingToFree
  match exchangeMemory? r.name f.resources with
  | some (address, resources) =>
    spillToMemory m r address
    modify fun f => { f with resources }
    return .memory r
  | none =>
    if f.resources.any Resource.offersStack then
      match stackPair? m r with
      | .error e => throw e
      | .ok none => return .infeasible
      | .ok (some (push, pop)) =>
        spillToStack push pop
        modify fun f => { f with resources := f.resources ++ [Resource.register r.name] }
        return .stack r
    else return .infeasible

end Frame

end DelaySynth
