import DelaySynth.Search.LoopSearch

/-!
# When to free a register

The granted registers are too few if, with all of them counting as long as they can, too many flat
instructions would still be left. The estimate of that number is computed in binary floating point.
-/

namespace DelaySynth

/-- A number of 64 bits in floating point, rounded to nearest. -/
def floatOfNat (n : Nat) : Float :=
  (UInt64.ofNat n).toFloat

/-- An integer in floating point, rounded to nearest. It is read as a signed word of 64 bits. -/
def floatOfInt (i : Int) : Float :=
  let word := i.bmod bound64
  if word < 0 then -floatOfNat word.natAbs else floatOfNat word.natAbs

namespace Machine

/-- The estimated number of flat instructions that are left of a window when every granted register
counts a narrow loop of 256 iterations. Without any filler there is no bound on it. -/
def spillEstimate (m : Machine) (windowMin : Int) (granted : ResourceSet) :
    Except CatalogError Float := do
  let some shortest := ((m.catalog.available granted).map Row.duration).min? | return 1.0 / 0.0
  let counter := m.target.narrowCounters.headD m.target.primary
  let overhead ← m.overhead .narrow counter
  let n := floatOfNat (Nat.pow 256 granted.registerCount)
  let counted := floatOfNat overhead.perIteration * n
  return (floatOfInt windowMin - counted) / (n * floatOfNat shortest)

end Machine

/-- Tells whether to free a register, given the lower end of the window and the grant. -/
abbrev SpillTest := Int → ResourceSet → Except CatalogError Bool

/-- Frees a register when the estimate lies above the threshold. -/
def Synthesizer.spillTest (y : Synthesizer) : SpillTest := fun windowMin granted => do
  let estimate ← y.machine.spillEstimate windowMin granted
  return estimate > floatOfNat y.config.spillThreshold

end DelaySynth
