import DelaySynth.WordSize

/-!
# Cycle windows

A window is a range of durations with both ends included. What a loop or a return costs is taken off
both ends, so an end may fall below zero.

Cycle counts enter the arithmetic of windows as signed words of 64 bits, and a count in the upper half
of their range therefore counts as a negative number.
-/

namespace DelaySynth

/-- A count of cycles as a signed word of 64 bits. -/
def signedCycles (cycles : Nat) : Int :=
  (cycles : Int).bmod bound64

theorem signedCycles_of_lt {cycles : Nat} (h : 2 * cycles < bound64) :
    signedCycles cycles = cycles := by
  unfold signedCycles
  apply Int.bmod_eq_of_le <;> omega

/-- A range of durations. -/
@[ext] structure Window where
  /-- The shortest duration. -/
  min : Int
  /-- The longest duration. -/
  max : Int
deriving DecidableEq, Repr

namespace Window

/-- The window for what is left when some cycles are spent. -/
def minus (w : Window) (cycles : Nat) : Window :=
  ⟨w.min - signedCycles cycles, w.max - signedCycles cycles⟩

/-- Tells whether a duration lies in the window. -/
def Contains (w : Window) (duration : Nat) : Prop :=
  w.min ≤ signedCycles duration ∧ signedCycles duration ≤ w.max

instance (w : Window) (duration : Nat) : Decidable (w.Contains duration) :=
  inferInstanceAs (Decidable (_ ∧ _))

/-- Tells whether no duration can lie in the window. -/
def Hopeless (w : Window) : Prop :=
  w.max < w.min ∨ w.max < 0

instance (w : Window) : Decidable w.Hopeless :=
  inferInstanceAs (Decidable (_ ∨ _))

/-- The window for the body of a loop that runs `n` times and spends `perIteration` cycles besides
its body each time. The lower end is rounded up and the upper end down. -/
def body (w : Window) (n : Nat) (perIteration : Int) : Window :=
  ⟨-((-w.min) / n) - perIteration, w.max / n - perIteration⟩

end Window

end DelaySynth
