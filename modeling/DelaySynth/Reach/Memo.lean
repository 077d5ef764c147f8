import DelaySynth.Search.Session

/-!
# Computing and keeping reach tables

A table costs one step for each duration that it has room for, and each round costs one step for each
duration that it goes through. A session can keep the tables that it has computed. A table is
determined by its key and the catalog, so a kept table is as good as a new one, and it costs nothing.
-/

namespace DelaySynth.Reach

open SearchM

/-- The room that a table of sequences of at most `budget` fillers needs. -/
def room (fillers : List Instruction) (budget : Nat) : Nat :=
  let longest := (fillers.map Instruction.duration).foldl max 0
  min (min (budget * longest) maxSteps + 1) maxSteps

/-- Plays up to `n` rounds, and no more once a round has marked nothing. -/
def rounds (limit : Nat) (fillers : List Instruction) : (n : Nat) → Reach → SearchM Reach
  | 0, t => return t
  | n + 1, t => do
    charge limit (t.top + 1)
    match t.round fillers with
    | (t, true) => rounds limit fillers n t
    | (t, false) => return t

/-- The table of the sequences of at most `budget` fillers made from some rows. -/
def compute (limit : Nat) (rows : List Row) (budget : Nat) (memory : List String) :
    SearchM Reach := do
  let fillers := rows.map (Row.filler memory)
  let bound := room fillers budget
  charge limit bound
  rounds limit fillers budget (start budget bound)

/-- The table of the fillers that a grant admits. If tables are kept, this one is there the next time. -/
def obtain (keep : Bool) (limit : Nat) (catalog : Catalog) (key : TableKey) : SearchM Reach := do
  match (← get).tables.lookup key with
  | some t =>
    record fun s => { s with memoHits := s.memoHits + 1 }
    return t
  | none =>
    let t ← compute limit (catalog.available key.granted) key.budget key.memory
    record fun s => { s with tablesComputed := s.tablesComputed + 1 }
    if keep then modify fun s => { s with tables := (key, t) :: s.tables }
    return t

end DelaySynth.Reach
