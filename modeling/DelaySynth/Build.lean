import DelaySynth.Spill.Basic
import DelaySynth.Spill.Estimate

/-!
# Building delay routines

A request asks for a routine that lasts between two numbers of cycles, holds at most a number of
instructions and touches only what it is granted. Building sets the return instruction aside, frees
registers while the granted ones are too few, and charges what that costs to the window and to the
budget. The main part is then a flat sequence if the window has one, and a loop otherwise. If there is
neither, the search is repeated with one more instruction, a limited number of times.

Each request has a session of its own. A search that is stopped at its limit of steps answers that
there is no routine.
-/

namespace DelaySynth

/-- What is asked of a routine. -/
structure Request where
  /-- The shortest duration in cycles. -/
  min : Int
  /-- The longest duration in cycles. -/
  max : Int
  /-- What the routine may touch. -/
  resources : List Resource
  /-- The largest number of instructions, the return included. -/
  budget : Nat
  /-- Whether the routine ends with a return. -/
  includeReturn : Bool := true
deriving DecidableEq, Repr

/-- The window that is asked for. -/
def Request.window (r : Request) : Window := ⟨r.min, r.max⟩

/-- Counts a freed register. -/
def Stats.addSpill (s : Stats) : SpillOutcome → Stats
  | .memory _ => { s with memorySpills := s.memorySpills + 1 }
  | .stack _ => { s with stackSpills := s.stackSpills + 1 }
  | .nothingToFree | .infeasible => s

namespace Synthesizer

/-- Attempts to free a register, and counts it. A failure leaves the frame as far as it was built. -/
def spill (y : Synthesizer) (f : Frame) : SearchM (Except CatalogError SpillOutcome × Frame) := do
  match (Frame.spill y.machine).run f with
  | .ok outcome f =>
    SearchM.record (·.addSpill outcome)
    return (.ok outcome, f)
  | .error e f => return (.error e, f)

/-- The largest budget. -/
def maxBudget : Nat := bound32 - 1

/-- Frees registers as long as `test` asks for it, at most `n` times. The answer is the frame in which
the main part is to be built, or nothing if a register is asked for that cannot be saved. -/
def freeRegisters? (y : Synthesizer) (test : SpillTest) (window : Window) :
    (n : Nat) → Frame → SearchM (Option Frame)
  | 0, f => return some f
  | n + 1, f => do
    let left := window.minus (f.save.duration + f.restore.duration)
    if ← SearchM.ofCatalog (test left.min (ResourceSet.ofResources f.resources)) then
      let (outcome, f) ← y.spill f
      match ← SearchM.ofCatalog outcome with
      | .memory _ | .stack _ => freeRegisters? y test window n f
      | .nothingToFree => return some f
      | .infeasible => return none
    else return some f

/-- Seeks the main part: the shortest flat sequence in the window, or else a loop. -/
def main? (y : Synthesizer) (window : Window) (granted : ResourceSet) (memory : List String)
    (budget : Nat) : SearchM (Option Code) := do
  if window.max < 0 then return none
  let table ← y.table { budget, granted, memory }
  let flat? := if window.min ≤ table.top then table.lookupWindow window else none
  match flat? with
  | some flat => return some (.group flat)
  | none => return (← y.loop? memory budget window granted 0).map .loop

/-- Seeks the main part with `attempt` more instructions than the budget. -/
def attempt? (seek : Nat → SearchM (Option Code)) (budget attempt : Nat) :
    SearchM (Option Code) := do
  if 0 < attempt then SearchM.recordRetry
  seek (min (budget + attempt) maxBudget)

/-- Seeks the main part with `attempt` more instructions than the budget, and then with one more at a
time, `n` times at most. -/
def attempts? (seek : Nat → SearchM (Option Code)) (budget : Nat) :
    (n attempt : Nat) → SearchM (Option Code)
  | 0, attempt => attempt? seek budget attempt
  | n + 1, attempt => do
    match ← attempt? seek budget attempt with
    | some main => return some main
    | none => attempts? seek budget n (attempt + 1)

/-- The return that a request asks for. -/
def returnFor? (y : Synthesizer) (r : Request) : SearchM (Option Instruction) :=
  if r.includeReturn then some <$> SearchM.ofCatalog y.machine.ret else pure none

/-- Seeks a routine, freeing registers as long as `test` asks for it. -/
def routine? (y : Synthesizer) (test : SpillTest) (r : Request) :
    SearchM (Option (Routine Code)) := do
  let ret? ← y.returnFor? r
  let window := r.window.minus ((ret?.map Instruction.duration).getD 0)
  let some f ← y.freeRegisters? test window (Register.count + 1) { resources := r.resources }
    | return none
  let window := window.minus (f.save.duration + f.restore.duration)
  let budget := r.budget - ret?.toList.length - (f.save.length + f.restore.length)
  let seek := y.main? window (ResourceSet.ofResources f.resources) (Resource.addresses f.resources)
  let some main ← attempts? seek budget y.config.budgetRetries 0 | return none
  return some { save := f.save, main, restore := f.restore, ret? }

/-- Builds a routine, freeing registers as long as `test` asks for it. -/
def buildWith (y : Synthesizer) (test : SpillTest) (r : Request) :
    Except SynthError (Option (Routine Code) × Stats) :=
  if r.max < r.min ∨ r.max < 0 then .error (.invalidWindow r.min r.max)
  else
    match (y.routine? test r).run {} with
    | .error (.searchLimit _) s => .ok (none, s.stats)
    | .error e _ => .error e
    | .ok none s => .ok (none, s.stats)
    | .ok (some routine) s =>
      if r.window.Contains routine.duration then .ok (some routine, s.stats)
      else .error (.timingMismatch routine.duration r.min r.max)

/-- Builds a routine for a request, and tells what the search has done. -/
def build (y : Synthesizer) (r : Request) : Except SynthError (Option (Routine Code) × Stats) :=
  y.buildWith y.spillTest r

end Synthesizer

end DelaySynth
