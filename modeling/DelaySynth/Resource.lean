import DelaySynth.Address
import DelaySynth.ResourceSet

/-!
# Resources

A caller lists the parts of the machine that a routine may touch. A part may also be listed as
withheld, and then it counts for nothing. `ResourceSet.ofResources` sums a list up as a grant.
-/

namespace DelaySynth

/-- A part of the machine. -/
inductive Hardware where
  /-- The register with this name. -/
  | register (name : String)
  /-- The memory cell at this address, as the caller wrote it. -/
  | memory (address : String)
  /-- The stack. -/
  | stack
deriving DecidableEq, Repr

/-- The name or address of the part; the stack has none. -/
def Hardware.identifier : Hardware → String
  | register name => name
  | memory address => address
  | stack => ""

instance : ToString Hardware where
  toString
    | .register name => "register " ++ name
    | .memory address => "memory " ++ address
    | .stack => "stack"

/-- A part of the machine that a caller offers or withholds. -/
structure Resource where
  /-- The part. -/
  part : Hardware
  /-- Whether a routine may touch it. -/
  available : Bool := true
deriving DecidableEq, Repr

namespace Resource

/-- An available register. -/
def register (name : String) : Resource := { part := .register name }

/-- An available memory cell. -/
def memory (address : String) : Resource := { part := .memory address }

/-- The stack, available. -/
def stack : Resource := { part := .stack }

/-- The register that the resource offers. -/
def register? : Resource → Option Register
  | ⟨.register name, true⟩ => Register.ofName? name
  | _ => none

/-- The memory address that the resource offers. -/
def address? : Resource → Option String
  | ⟨.memory address, true⟩ => some address
  | _ => none

/-- Tells whether the resource offers the stack. -/
def offersStack : Resource → Bool
  | ⟨.stack, available⟩ => available
  | _ => false

instance : ToString Resource where
  toString r := toString r.part ++ if r.available then "" else " (withheld)"

/-- The memory addresses that a list offers, in the order of the list. -/
def addresses (rs : List Resource) : List String :=
  rs.filterMap address?

end Resource

/-- The number of memory cells that a list of addresses grants. Code that touches two cells touches
neighbours, so a second cell counts only if two of the addresses lie side by side. -/
def ResourceSet.cellsGranted (addresses : List String) : Nat :=
  if (Address.adjacentPair? addresses).isSome then 2 else min addresses.length 1

/-- The grant that a list of resources amounts to. -/
def ResourceSet.ofResources (rs : List Resource) : ResourceSet :=
  let registers := (rs.filterMap Resource.register?).foldl ResourceSet.insert ∅
  let cells := registers.addMemory (cellsGranted (Resource.addresses rs))
  if rs.any Resource.offersStack then cells.addStack else cells

end DelaySynth
