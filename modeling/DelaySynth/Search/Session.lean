import DelaySynth.Machine
import DelaySynth.Reach.Basic
import DelaySynth.SynthError
import DelaySynth.WordSize

/-!
# Search sessions

A session carries what one request changes: the steps that the search has taken, the statistics, and
the reach tables that have been computed. The search runs in `SearchM`, which keeps the session also
when it fails, so that the statistics of a search that was stopped can be told.
-/

namespace DelaySynth

/-- The tunable values of a search. -/
structure Config where
  /-- The estimated number of flat instructions above which a register is freed. -/
  spillThreshold : Nat := 30
  /-- How often the search is repeated with one more instruction. -/
  budgetRetries : Nat := 16
  /-- How many steps the search may take. -/
  stepLimit : Nat := 2000000
deriving DecidableEq, Repr, Inhabited

/-- What a search has done. -/
structure Stats where
  /-- Reach tables computed. -/
  tablesComputed : Nat := 0
  /-- Reach tables found among those already computed. -/
  memoHits : Nat := 0
  /-- Loops attempted on a register pair. -/
  wideLoops : Nat := 0
  /-- Loops attempted on a register. -/
  narrowLoops : Nat := 0
  /-- Iteration counts examined. -/
  candidates : Nat := 0
  /-- Loops built as the body of another loop. -/
  nestedLoops : Nat := 0
  /-- Registers saved in memory. -/
  memorySpills : Nat := 0
  /-- Registers saved on the stack. -/
  stackSpills : Nat := 0
  /-- Searches repeated with one more instruction. -/
  budgetRetries : Nat := 0
  /-- Steps taken. -/
  steps : Nat := 0
deriving DecidableEq, Repr, Inhabited

instance : ToString Stats where
  toString s :=
    let spills :=
      if s.memorySpills + s.stackSpills > 0 then
        s!"  Registers spilled: {s.memorySpills} to memory, {s.stackSpills} to stack\n"
      else ""
    "Synthesis Statistics:\n" ++
    s!"  Reachability tables computed: {s.tablesComputed}\n" ++
    s!"  Reachability memo hits: {s.memoHits}\n" ++
    s!"  Loops attempted: {s.wideLoops} wide, {s.narrowLoops} narrow\n" ++
    s!"  Iteration counts examined: {s.candidates}\n" ++
    s!"  Nested loops built: {s.nestedLoops}\n" ++
    spills ++
    s!"  Budget retries: {s.budgetRetries}\n" ++
    s!"  Search steps: {s.steps}\n"

/-- What a reach table is computed from, besides the catalog. -/
structure TableKey where
  /-- The longest length of a sequence. -/
  budget : Nat
  /-- The grant under which fillers are chosen. -/
  granted : ResourceSet
  /-- The addresses that fillers may access. -/
  memory : List String
deriving DecidableEq, Repr

/-- The state of one request. -/
structure Session where
  /-- What the search has done. -/
  stats : Stats := {}
  /-- The reach tables computed so far, the latest first. -/
  tables : List (TableKey × Reach) := []

instance : Inhabited Session := ⟨{}⟩

/-- A computation that may fail and that changes the session either way. -/
abbrev SearchM := EStateM SynthError Session

namespace SearchM

/-- Changes the statistics. -/
@[inline] def record (f : Stats → Stats) : SearchM Unit :=
  modify fun s => { s with stats := f s.stats }

/-- Fails where a question to the catalog fails. -/
def ofCatalog {α : Type} : Except CatalogError α → SearchM α
  | .ok a => return a
  | .error e => throw (.incompatibleCatalog e)

/-- The largest number of steps that is counted. -/
def maxSteps : Nat := bound64 - 1

/-- Counts some steps, and fails if there are then more than the limit. -/
def charge (limit count : Nat) : SearchM Unit := do
  record fun s => { s with steps := min (s.steps + count) maxSteps }
  if (← get).stats.steps > limit then throw (.searchLimit limit)

/-- Counts an attempt at a loop. -/
def recordLoop : CounterWidth → SearchM Unit
  | .wide => record fun s => { s with wideLoops := s.wideLoops + 1 }
  | .narrow => record fun s => { s with narrowLoops := s.narrowLoops + 1 }

/-- Counts an examined iteration count. -/
def recordCandidate : SearchM Unit :=
  record fun s => { s with candidates := s.candidates + 1 }

/-- Counts a loop built as the body of another. -/
def recordNested : SearchM Unit :=
  record fun s => { s with nestedLoops := s.nestedLoops + 1 }

/-- Counts a repeated search. -/
def recordRetry : SearchM Unit :=
  record fun s => { s with budgetRetries := s.budgetRetries + 1 }

end SearchM

end DelaySynth
