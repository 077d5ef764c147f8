import DelaySynth.Code.Basic
import DelaySynth.Window

/-!
# Reachable durations

A reach table knows every duration that a sequence of at most `budget` filler instructions can have,
and for each of them one such sequence. It is filled in rounds: a round goes through the durations
marked so far, from the longest down to zero, and extends each of them by every filler. What a round
marks lies above the place where the round stands, so a duration that is first marked in round `r` is
reached by `r` instructions. Each mark keeps the last instruction and the duration before it, and
following these marks down to zero yields the sequence.

`Reach.Sweep.down` is one round, `Reach.sequence?` follows the marks, and `Reach.lookupWindow` looks
for the shortest reachable duration of a window.
-/

namespace DelaySynth

/-- How a duration is reached. -/
inductive Mark where
  /-- It is not reached. -/
  | unreached
  /-- It is zero and needs no instruction. -/
  | origin
  /-- It is reached from a shorter duration by one more instruction. -/
  | step (previous : Nat) (last : Instruction)
deriving DecidableEq, Inhabited

/-- The durations that sequences of at most `budget` fillers can have. -/
structure Reach where
  /-- The longest length of a sequence. -/
  budget : Nat
  /-- The mark of each duration. -/
  marks : Array Mark
  /-- The longest reached duration. -/
  top : Nat
deriving DecidableEq

namespace Reach

/-- The number of durations that the table has room for. -/
def bound (t : Reach) : Nat := t.marks.size

/-- Tells whether a mark stands for a reached duration. -/
def isReached : Mark → Bool
  | .unreached => false
  | _ => true

/-- Tells whether a duration is reached. -/
def reaches (t : Reach) (d : Nat) : Bool :=
  isReached (t.marks.getD d .unreached)

/-- Tells whether an integer is a reached duration. -/
def reachesInt (t : Reach) : Int → Bool
  | .ofNat d => t.reaches d
  | .negSucc _ => false

/-! ## Rounds -/

/-- A table in the course of a round. -/
structure Sweep where
  /-- The marks so far. -/
  marks : Array Mark
  /-- The longest reached duration so far. -/
  top : Nat
  /-- Whether the round has marked anything. -/
  changed : Bool

namespace Sweep

/-- Marks the duration that one more filler leads to, unless it is marked already. -/
def extend (base : Nat) (s : Sweep) (filler : Instruction) : Sweep :=
  let d := base + filler.duration
  match s.marks[d]? with
  | some .unreached =>
    { marks := s.marks.setIfInBounds d (.step base filler), top := max s.top d, changed := true }
  | _ => s

/-- Extends a duration by every filler, if it is reached. -/
def extendAll (fillers : List Instruction) (base : Nat) (s : Sweep) : Sweep :=
  if isReached (s.marks.getD base .unreached) then fillers.foldl (extend base) s else s

/-- Extends the durations below `n`, the longest first. -/
def down (fillers : List Instruction) : (n : Nat) → Sweep → Sweep
  | 0, s => s
  | n + 1, s => down fillers n (extendAll fillers n s)

end Sweep

/-- The table before the first round, in which only zero is reached. -/
def start (budget bound : Nat) : Reach where
  budget := budget
  marks := (Array.replicate bound .unreached).setIfInBounds 0 .origin
  top := 0

/-- The table after one more round, and whether the round has marked anything. -/
def round (fillers : List Instruction) (t : Reach) : Reach × Bool :=
  let s := Sweep.down fillers (t.top + 1) ⟨t.marks, t.top, false⟩
  (⟨t.budget, s.marks, s.top⟩, s.changed)

/-! ## Sequences -/

/-- Follows the marks from a duration down, for at most `fuel` steps. -/
def follow (marks : Array Mark) : (fuel d : Nat) → List Instruction → List Instruction
  | 0, _, found => found
  | fuel + 1, d, found =>
    match marks.getD d .unreached with
    | .step previous last => follow marks fuel previous (last :: found)
    | _ => found

/-- The sequence that reaches a duration. Every step leads to a shorter duration, so there are at most
as many steps as cycles. -/
def sequence? (t : Reach) (d : Nat) : Option (List Instruction) :=
  if t.reaches d then some (follow t.marks d d []) else none

/-- The sequence that reaches an integer, if it is a reached duration. -/
def sequenceInt? (t : Reach) : Int → Option (List Instruction)
  | .ofNat d => t.sequence? d
  | .negSucc _ => none

/-- The first reached duration among `count` durations from `d` on. -/
def firstReached? (t : Reach) : (count d : Nat) → Option Nat
  | 0, _ => none
  | count + 1, d => if t.reaches d then some d else firstReached? t count (d + 1)

/-- The sequence for the shortest reached duration in a window. -/
def lookupWindow (t : Reach) (w : Window) : Option (Group Code) :=
  let low := w.min.toNat
  let high := min w.max t.top
  if w.max < low then none
  else do
    let d ← t.firstReached? (high - low + 1).toNat low
    let items ← t.sequence? d
    return .unordered (items.map Code.instr)

end Reach

end DelaySynth
