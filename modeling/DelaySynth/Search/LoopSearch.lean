import DelaySynth.Reach.Memo

/-!
# Search for counted loops

A loop takes a counter out of the grant and three instructions out of the budget. Its iteration count
is sought from the largest that the window admits down to two, and each count leaves a window for the
body. A body that must last longer than any flat sequence can is sought as another loop, one level
deeper; any other body is a flat sequence. The first count with a body wins.

A wide counter is tried first, and a narrow one only if no wide loop is found.
-/

namespace DelaySynth

/-- What a search works with, besides its session. -/
structure Synthesizer where
  /-- The instruction table and the processor. -/
  machine : Machine
  /-- The tunable values. -/
  config : Config := {}
  /-- Whether the session keeps the reach tables that are computed. -/
  keepTables : Bool := true

/-- The reach table for a key. -/
def Synthesizer.table (y : Synthesizer) (key : TableKey) : SearchM Reach :=
  Reach.obtain y.keepTables y.config.stepLimit y.machine.catalog key

/-- The counter that a loop uses and the grant that is left for its body: the most preferred counter
whose registers are granted. -/
def Target.pickCounter? (t : Target) (granted : ResourceSet) :
    CounterWidth → Option (Register × ResourceSet)
  | .wide =>
    (t.wideCounters.find? fun p => p.1 ∈ granted ∧ p.2 ∈ granted).map fun p =>
      (p.1, (granted.erase p.1).erase p.2)
  | .narrow =>
    (t.narrowCounters.find? fun r => r ∈ granted).map fun r => (r, granted.erase r)

/-- A loop that is being sought. -/
structure LoopGoal where
  /-- The width of the counter. -/
  width : CounterWidth
  /-- The counter, named by its register or by the high register of its pair. -/
  counter : Register
  /-- The cycles of the decrement and the branch. -/
  perIteration : Int
  /-- The window for everything but the load of the counter. -/
  window : Window
  /-- What the reach table for a flat body is computed from. -/
  bodyKey : TableKey
  /-- The nesting depth, which names the label. -/
  depth : Nat

namespace LoopGoal

/-- The largest iteration count to try. The quotient of the window and the cost of an iteration
is rounded towards zero and cut to a word of 32 bits. -/
def maxIterations (g : LoopGoal) (t : Target) : Nat :=
  let fits := min (g.window.max.tdiv g.perIteration) (bound32 - 1 : Nat)
  min (t.maxIterations g.width) (fits % bound32).toNat

/-- Seeks a body for `n` iterations; `nested` seeks a loop for a window. -/
def body? (y : Synthesizer) (nested : Window → SearchM (Option (Loop Code))) (g : LoopGoal)
    (n : Nat) : SearchM (Option Code) := do
  SearchM.charge y.config.stepLimit 1
  SearchM.recordCandidate
  let window := g.window.body n g.perIteration
  if window.Hopeless then return none
  let table ← y.table g.bodyKey
  if window.min ≤ table.top then return (table.lookupWindow window).map .group
  match ← nested window with
  | some inner =>
    SearchM.recordNested
    return some (.loop inner)
  | none => return none

/-- The loop with a body and an iteration count. -/
def close (y : Synthesizer) (g : LoopGoal) (body : Code) (n : Nat) : SearchM (Loop Code) := do
  let label := y.machine.target.loopLabel g.depth
  return {
    init := ← SearchM.ofCatalog (y.machine.loopInit g.width g.counter n)
    body
    decrement := ← SearchM.ofCatalog (y.machine.decrement g.width g.counter)
    branch := ← SearchM.ofCatalog (y.machine.branch label)
    label
    iterations := n }

/-- Tries the iteration counts from `n` down to two. -/
def countDown (y : Synthesizer) (nested : Window → SearchM (Option (Loop Code))) (g : LoopGoal) :
    (n : Nat) → SearchM (Option (Loop Code))
  | n + 2 => do
    match ← g.body? y nested (n + 2) with
    | some body => some <$> g.close y body (n + 2)
    | none => countDown y nested g (n + 1)
  | _ => return none

end LoopGoal

namespace Synthesizer

/-- Seeks a loop with a counter of one width; `nested` seeks a loop under a grant for a window. -/
def loopOfWidth? (y : Synthesizer) (nested : ResourceSet → Window → SearchM (Option (Loop Code)))
    (memory : List String) (bodyBudget : Nat) (window : Window) (granted : ResourceSet) (depth : Nat)
    (width : CounterWidth) : SearchM (Option (Loop Code)) := do
  let some (counter, bodyGranted) := y.machine.target.pickCounter? granted width | return none
  SearchM.recordLoop width
  let overhead ← SearchM.ofCatalog (y.machine.overhead width counter)
  let goal : LoopGoal :=
    { width, counter, depth
      perIteration := signedCycles overhead.perIteration
      window := window.minus overhead.init
      bodyKey := { budget := bodyBudget, granted := bodyGranted, memory } }
  if goal.window.max < 0 ∨ goal.perIteration = 0 then return none
  goal.countDown y (nested bodyGranted) (goal.maxIterations y.machine.target)

/-- Seeks a loop that lasts between the ends of a window and holds at most `budget` instructions. -/
def loop? (y : Synthesizer) (memory : List String) :
    (budget : Nat) → Window → ResourceSet → (depth : Nat) → SearchM (Option (Loop Code))
  | bodyBudget + 3, window, granted, depth => do
    let nested := fun granted window => loop? y memory bodyBudget window granted (depth + 1)
    match ← loopOfWidth? y nested memory bodyBudget window granted depth .wide with
    | some found => return some found
    | none => loopOfWidth? y nested memory bodyBudget window granted depth .narrow
  | _, _, _, _ => return none

end Synthesizer

end DelaySynth
