import DelaySynth.Proofs.Build

/-!
# Two searches side by side

Two synthesizers for one machine may differ in their limits of steps and in the way they come by reach
tables. What such searches have to do with each other is told by a relation between computations. It
is enough that the relation is kept by what searches are put together from, and that it holds between
the tables: then it holds between the searches for loops, main parts and routines.

The search for a main part needs less than that for a routine, which saves registers and repeats the
search besides.

* `LoopRelation`, `SearchRelation`: what a relation has to keep.
* `Synthesizer.LoopsRelated`, `Synthesizer.Related`: two synthesizers whose searches are related.
* `LoopsRelated.loop?`, `LoopsRelated.main?`, `Related.spill`, `Related.routine?`: the relation of the
  searches.
-/

namespace DelaySynth

open SearchM

/-- The change only counts what happens, and neither steps nor computed tables. -/
structure Stats.Bookkeeping (f : Stats → Stats) : Prop where
  steps : ∀ s, (f s).steps = s.steps
  tablesComputed : ∀ s, (f s).tablesComputed = s.tablesComputed

theorem Stats.bookkeeping_addSpill (outcome : SpillOutcome) :
    Stats.Bookkeeping (·.addSpill outcome) := by
  cases outcome <;> exact ⟨fun _ => rfl, fun _ => rfl⟩

/-- A relation between computations with two limits of steps that is kept by what searches for main
parts are put together from. -/
structure LoopRelation (limit limit' : Nat) (P : {α : Type} → SearchM α → SearchM α → Prop) :
    Prop where
  pure {α : Type} (a : α) : P (pure a) (pure a)
  ofCatalog {α : Type} (x : Except CatalogError α) : P (ofCatalog x) (ofCatalog x)
  recordLoop (width : CounterWidth) : P (recordLoop width) (recordLoop width)
  recordCandidate : P recordCandidate recordCandidate
  recordNested : P recordNested recordNested
  charge (count : Nat) : P (charge limit count) (charge limit' count)
  bind {α β : Type} {x x' : SearchM α} {f f' : α → SearchM β} (hx : P x x')
    (hf : ∀ a, P (f a) (f' a)) : P (x >>= f) (x' >>= f')

/-- A relation between computations with two limits of steps that is kept by what searches are put
together from. -/
structure SearchRelation (limit limit' : Nat) (P : {α : Type} → SearchM α → SearchM α → Prop) :
    Prop where
  pure {α : Type} (a : α) : P (pure a) (pure a)
  ofCatalog {α : Type} (x : Except CatalogError α) : P (ofCatalog x) (ofCatalog x)
  record {f : Stats → Stats} (hf : Stats.Bookkeeping f) : P (record f) (record f)
  charge (count : Nat) : P (charge limit count) (charge limit' count)
  bind {α β : Type} {x x' : SearchM α} {f f' : α → SearchM β} (hx : P x x')
    (hf : ∀ a, P (f a) (f' a)) : P (x >>= f) (x' >>= f')

variable {P : {α : Type} → SearchM α → SearchM α → Prop}

namespace LoopRelation

variable {limit limit' : Nat} {α β : Type} {x x' : SearchM α}

theorem map (h : LoopRelation limit limit' P) (f : α → β) (hx : P x x') :
    P (f <$> x) (f <$> x') := by
  rw [map_eq_pure_bind, map_eq_pure_bind]
  exact h.bind hx fun a => h.pure (f a)

/-- Tables are computed in the same rounds, whatever the limit is. -/
theorem rounds (h : LoopRelation limit limit' P) (fillers : List Instruction) (n : Nat)
    (t : Reach) : P (Reach.rounds limit fillers n t) (Reach.rounds limit' fillers n t) := by
  induction n generalizing t with
  | zero => exact h.pure t
  | succ n ih =>
    refine h.bind (h.charge _) fun _ => ?_
    cases t.round fillers with
    | mk u changed =>
      cases changed with
      | true => exact ih u
      | false => exact h.pure u

theorem compute (h : LoopRelation limit limit' P) (rows : List Row) (budget : Nat)
    (memory : List String) :
    P (Reach.compute limit rows budget memory) (Reach.compute limit' rows budget memory) :=
  h.bind (h.charge _) fun _ => h.rounds _ _ _

/-- Tables are obtained alike if the session is read and changed alike. -/
theorem obtain (h : LoopRelation limit limit' P) (hget : P (get : SearchM Session) get)
    (hhit : P (record fun s => { s with memoHits := s.memoHits + 1 })
      (record fun s => { s with memoHits := s.memoHits + 1 }))
    (hcount : P (record fun s => { s with tablesComputed := s.tablesComputed + 1 })
      (record fun s => { s with tablesComputed := s.tablesComputed + 1 }))
    (hkeep : ∀ key t, P (modify fun s : Session => { s with tables := (key, t) :: s.tables })
      (modify fun s : Session => { s with tables := (key, t) :: s.tables }))
    (keep : Bool) (c : Catalog) (key : TableKey) :
    P (Reach.obtain keep limit c key) (Reach.obtain keep limit' c key) := by
  refine h.bind hget fun s => ?_
  cases s.tables.lookup key with
  | some t => exact h.bind hhit fun _ => h.pure t
  | none =>
    refine h.bind (h.compute _ _ _) fun t => h.bind hcount fun _ => ?_
    cases keep with
    | false => exact h.pure t
    | true => exact h.bind (hkeep key t) fun _ => h.pure t

end LoopRelation

namespace SearchRelation

variable {limit limit' : Nat} {α β : Type} {x x' : SearchM α}

theorem recordLoop (h : SearchRelation limit limit' P) (width : CounterWidth) :
    P (recordLoop width) (recordLoop width) := by
  cases width with
  | wide =>
    exact h.record (f := fun s => { s with wideLoops := s.wideLoops + 1 })
      ⟨fun _ => rfl, fun _ => rfl⟩
  | narrow =>
    exact h.record (f := fun s => { s with narrowLoops := s.narrowLoops + 1 })
      ⟨fun _ => rfl, fun _ => rfl⟩

theorem recordCandidate (h : SearchRelation limit limit' P) : P recordCandidate recordCandidate :=
  h.record (f := fun s => { s with candidates := s.candidates + 1 }) ⟨fun _ => rfl, fun _ => rfl⟩

theorem recordNested (h : SearchRelation limit limit' P) : P recordNested recordNested :=
  h.record (f := fun s => { s with nestedLoops := s.nestedLoops + 1 }) ⟨fun _ => rfl, fun _ => rfl⟩

theorem recordRetry (h : SearchRelation limit limit' P) : P recordRetry recordRetry :=
  h.record (f := fun s => { s with budgetRetries := s.budgetRetries + 1 })
    ⟨fun _ => rfl, fun _ => rfl⟩

theorem toLoopRelation (h : SearchRelation limit limit' P) : LoopRelation limit limit' P where
  pure := h.pure
  ofCatalog := h.ofCatalog
  recordLoop := h.recordLoop
  recordCandidate := h.recordCandidate
  recordNested := h.recordNested
  charge := h.charge
  bind := h.bind

theorem map (h : SearchRelation limit limit' P) (f : α → β) (hx : P x x') :
    P (f <$> x) (f <$> x') :=
  h.toLoopRelation.map f hx

theorem compute (h : SearchRelation limit limit' P) (rows : List Row) (budget : Nat)
    (memory : List String) :
    P (Reach.compute limit rows budget memory) (Reach.compute limit' rows budget memory) :=
  h.toLoopRelation.compute rows budget memory

end SearchRelation

/-- Two synthesizers for one machine whose limits and tables are related, as far as main parts are
concerned. -/
structure Synthesizer.LoopsRelated (y y' : Synthesizer)
    (P : {α : Type} → SearchM α → SearchM α → Prop) : Prop
    extends LoopRelation y.config.stepLimit y'.config.stepLimit P where
  machine : y'.machine = y.machine
  table (key : TableKey) : P (y.table key) (y'.table key)

/-- Two synthesizers for one machine whose limits and tables are related. -/
structure Synthesizer.Related (y y' : Synthesizer)
    (P : {α : Type} → SearchM α → SearchM α → Prop) : Prop
    extends SearchRelation y.config.stepLimit y'.config.stepLimit P where
  machine : y'.machine = y.machine
  table (key : TableKey) : P (y.table key) (y'.table key)

namespace Synthesizer

variable {y y' : Synthesizer}

/-! ## Loops and main parts -/

namespace LoopsRelated

section

variable {nested nested' : Window → SearchM (Option (Loop Code))}

theorem body? (h : LoopsRelated y y' P) (hnested : ∀ w, P (nested w) (nested' w)) (g : LoopGoal)
    (n : Nat) : P (g.body? y nested n) (g.body? y' nested' n) := by
  refine h.bind (h.charge 1) fun _ => h.bind h.recordCandidate fun _ => ?_
  simp only
  split
  · exact h.pure none
  refine h.bind (h.table g.bodyKey) fun table => ?_
  split
  · exact h.pure _
  refine h.bind (hnested _) fun found => ?_
  cases found with
  | none => exact h.pure none
  | some inner => exact h.bind h.recordNested fun _ => h.pure _

theorem close (h : LoopsRelated y y' P) (g : LoopGoal) (body : Code) (n : Nat) :
    P (g.close y body n) (g.close y' body n) := by
  unfold LoopGoal.close
  rw [h.machine]
  exact h.bind (h.ofCatalog _) fun _ => h.bind (h.ofCatalog _) fun _ => h.bind (h.ofCatalog _)
    fun _ => h.pure _

theorem countDown (h : LoopsRelated y y' P) (hnested : ∀ w, P (nested w) (nested' w)) (g : LoopGoal)
    (n : Nat) : P (g.countDown y nested n) (g.countDown y' nested' n) := by
  induction n with
  | zero => exact h.pure none
  | succ n ih =>
    cases n with
    | zero => exact h.pure none
    | succ n =>
      refine h.bind (h.body? hnested g (n + 2)) fun found => ?_
      cases found with
      | none => exact ih
      | some body => exact h.map some (h.close g body (n + 2))

end

theorem loopOfWidth? {nested nested' : ResourceSet → Window → SearchM (Option (Loop Code))}
    (h : LoopsRelated y y' P) (hnested : ∀ granted w, P (nested granted w) (nested' granted w))
    (memory : List String) (budget : Nat) (window : Window) (granted : ResourceSet) (depth : Nat)
    (width : CounterWidth) : P (y.loopOfWidth? nested memory budget window granted depth width)
      (y'.loopOfWidth? nested' memory budget window granted depth width) := by
  unfold Synthesizer.loopOfWidth?
  rw [h.machine]
  cases y.machine.target.pickCounter? granted width with
  | none => exact h.pure none
  | some picked =>
    refine h.bind (h.recordLoop width) fun _ => h.bind (h.ofCatalog _) fun overhead => ?_
    simp only
    split
    · exact h.pure none
    · exact h.countDown (hnested _) _ _

theorem loop? (h : LoopsRelated y y' P) (memory : List String) (budget : Nat) (window : Window)
    (granted : ResourceSet) (depth : Nat) : P (y.loop? memory budget window granted depth)
      (y'.loop? memory budget window granted depth) := by
  fun_induction Synthesizer.loop? y memory budget window granted depth with
  | case1 budget window granted depth nested ih =>
    rw [Synthesizer.loop?]
    refine h.bind (h.loopOfWidth? ih _ _ _ _ _ .wide) fun found => ?_
    cases found with
    | some l => exact h.pure (some l)
    | none => exact h.loopOfWidth? ih _ _ _ _ _ .narrow
  | case2 budget window granted depth hbudget =>
    rw [Synthesizer.loop?]
    · exact h.pure none
    · exact hbudget

theorem main? (h : LoopsRelated y y' P) (window : Window) (granted : ResourceSet) (memory : List String)
    (budget : Nat) :
    P (y.main? window granted memory budget) (y'.main? window granted memory budget) := by
  unfold Synthesizer.main?
  split
  · exact h.pure none
  refine h.bind (h.table _) fun table => ?_
  simp only
  split
  · exact h.pure _
  · exact h.bind (h.loop? _ _ _ _ _) fun found => h.pure _

end LoopsRelated

/-! ## Routines -/

namespace Related

theorem loopsRelated (h : Related y y' P) : LoopsRelated y y' P where
  toLoopRelation := h.toLoopRelation
  machine := h.machine
  table := h.table

theorem attempts? {seek seek' : Nat → SearchM (Option Code)} (h : Related y y' P)
    (hseek : ∀ budget, P (seek budget) (seek' budget)) (budget n attempt : Nat) :
    P (attempts? seek budget n attempt) (attempts? seek' budget n attempt) := by
  have hattempt (attempt : Nat) :
      P (attempt? seek budget attempt) (attempt? seek' budget attempt) := by
    unfold attempt?
    split
    · exact h.bind h.recordRetry fun _ => hseek _
    · exact hseek _
  induction n generalizing attempt with
  | zero => exact hattempt attempt
  | succ n ih =>
    refine h.bind (hattempt attempt) fun found => ?_
    cases found with
    | some main => exact h.pure (some main)
    | none => exact ih (attempt + 1)

theorem spill (h : Related y y' P) (f : Frame) : P (y.spill f) (y'.spill f) := by
  unfold Synthesizer.spill
  rw [h.machine]
  split
  · exact h.bind (h.record (Stats.bookkeeping_addSpill _)) fun _ => h.pure _
  · exact h.pure _

theorem freeRegisters? (h : Related y y' P) (test : SpillTest) (window : Window) (n : Nat)
    (f : Frame) : P (y.freeRegisters? test window n f) (y'.freeRegisters? test window n f) := by
  induction n generalizing f with
  | zero => exact h.pure (some f)
  | succ n ih =>
    refine h.bind (h.ofCatalog _) fun asked => ?_
    cases asked with
    | false => exact h.pure (some f)
    | true =>
      refine h.bind (h.spill f) fun ⟨result, f'⟩ => h.bind (h.ofCatalog result) fun outcome => ?_
      cases outcome with
      | memory r => exact ih f'
      | stack r => exact ih f'
      | nothingToFree => exact h.pure (some f')
      | infeasible => exact h.pure none

theorem returnFor? (h : Related y y' P) (r : Request) : P (y.returnFor? r) (y'.returnFor? r) := by
  unfold Synthesizer.returnFor?
  rw [h.machine]
  split
  · exact h.map some (h.ofCatalog _)
  · exact h.pure none

/-- Synthesizers that repeat the search equally often seek related routines. -/
theorem routine? (h : Related y y' P) (hretries : y'.config.budgetRetries = y.config.budgetRetries)
    (test : SpillTest) (r : Request) : P (y.routine? test r) (y'.routine? test r) := by
  refine h.bind (h.returnFor? r) fun ret? => h.bind (h.freeRegisters? test _ _ _) fun f? => ?_
  cases f? with
  | none => exact h.pure none
  | some f =>
    simp only [hretries]
    refine h.bind (h.attempts? (fun _ => h.loopsRelated.main? _ _ _ _) _ _ _) fun main? => ?_
    cases main? with
    | none => exact h.pure none
    | some main => exact h.pure _

end Related

end Synthesizer

end DelaySynth
