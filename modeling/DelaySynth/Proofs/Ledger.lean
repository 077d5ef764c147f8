import DelaySynth.Proofs.Memo.Operations
import DelaySynth.Proofs.Search.Nest
import DelaySynth.Proofs.Target.I8085

/-!
# What the statistics of a build tell

Loops that become bodies of other loops are counted deep in the search, where most branches find
nothing. The count is right at the end because a loop that is found is never given up: the control
instructions around it have been looked up before it was sought, so nothing can fail after it. Every
step is counted for an iteration count or for a table, so the steps add up.

* `TableKey.steps`: the steps that the table of a key takes.
* `Session.Tells`: so many loops are counted, and the steps are those of what has been done.
* `Tallies`: what a computation adds to a session that tells right. It composes along `>>=`.
* `tallies_loop?`, `tallies_routine?`: what is counted for loops and routines.
* `nested_loops_told`: what this means for builds.
-/

namespace DelaySynth

open SearchM

/-! ## Levels of loops -/

mutual

/-- The number of loops that are bodies of each other, from the outermost one. -/
def Code.levels : Code → Nat
  | .loop l => l.levels
  | .instr _ | .group _ | .routine _ => 0

/-- The number of loops that are bodies of each other, from this one. -/
def Loop.levels : Loop Code → Nat
  | ⟨_, body, _, _, _, _⟩ => body.levels + 1

end

@[simp] theorem Code.levels_group (g : Group Code) : (Code.group g).levels = 0 := by
  rw [Code.levels]

theorem Code.levels_loop (l : Loop Code) : (Code.loop l).levels = l.body.levels + 1 := by
  rw [Code.levels, Loop.levels]

theorem Chain.length_eq {code : Code} {links : List (Loop Code)} (h : Chain code links) :
    links.length = code.levels := by
  induction h with
  | flat items => rw [Code.levels_group, List.length_nil]
  | loop rest ih => rw [Code.levels_loop, List.length_cons, ih]

/-! ## Steps of a table -/

namespace Reach

/-- The tables before each of the rounds that are played. -/
def played (fillers : List Instruction) : (n : Nat) → Reach → List Reach
  | 0, _ => []
  | n + 1, t =>
    t :: match t.round fillers with
      | (t, true) => played fillers n t
      | (_, false) => []

/-- The steps of the rounds: each goes through the durations up to the longest reached one. -/
def roundSteps (fillers : List Instruction) (n : Nat) (t : Reach) : Nat :=
  ((played fillers n t).map fun t => t.top + 1).sum

end Reach

/-- The steps that the table of a key takes: one for each duration that it has room for, and those of
its rounds. -/
def TableKey.steps (c : Catalog) (key : TableKey) : Nat :=
  (Reach.ofKey c key).bound + Reach.roundSteps (c.fillers key.granted key.memory) key.budget
    (Reach.start key.budget (Reach.ofKey c key).bound)

/-- The session when some more steps have been taken. -/
def Session.stepped (s : Session) (count : Nat) : Session :=
  { s with stats := { s.stats with steps := s.stats.steps + count } }

/-- The computation takes so many steps and does nothing else. If it fails, it counts no nested loop. -/
def Steps {α : Type} (x : SearchM α) (count : Nat) : Prop :=
  ∀ s, match x.run s with
    | .ok _ t => t = s.stepped count
    | .error _ t => t.stats.nestedLoops = s.stats.nestedLoops

namespace Steps

variable {α β : Type} {limit count count' : Nat}

theorem pure (a : α) : Steps (pure a) 0 :=
  fun _ => rfl

/-- Under a limit that a word exceeds, no step is lost. -/
theorem charge (hlimit : limit < maxSteps) (count : Nat) : Steps (charge limit count) count := by
  intro s
  rw [run_charge]
  by_cases hmore : limit < (s.charged count).stats.steps
  · rw [if_pos hmore]
    rfl
  · rw [if_neg hmore]
    have hsteps : (s.charged count).stats.steps = min (s.stats.steps + count) maxSteps := rfl
    have hsum : min (s.stats.steps + count) maxSteps = s.stats.steps + count := by omega
    show s.charged count = s.stepped count
    rw [Session.charged, hsum, Session.stepped]

theorem bind {x : SearchM α} {f : α → SearchM β} (hx : Steps x count) (hf : ∀ a, Steps (f a) count') :
    Steps (x >>= f) (count + count') := by
  intro s
  have hfirst := hx s
  cases hrun : x.run s with
  | error e t =>
    rw [EStateM.run_bind, hrun]
    rwa [hrun] at hfirst
  | ok a t =>
    rw [hrun] at hfirst
    obtain rfl : t = s.stepped count := hfirst
    rw [run_bind_of_ok hrun]
    have hrest := hf a (s.stepped count)
    cases hrun' : (f a).run (s.stepped count) with
    | error e u =>
      rw [hrun'] at hrest
      exact hrest
    | ok b u =>
      rw [hrun'] at hrest
      obtain rfl : u = (s.stepped count).stepped count' := hrest
      simp only [Session.stepped, Nat.add_assoc]

end Steps

namespace Reach

variable {limit : Nat}

theorem steps_rounds (hlimit : limit < maxSteps) (fillers : List Instruction) (n : Nat) (t : Reach) :
    Steps (rounds limit fillers n t) (roundSteps fillers n t) := by
  induction n generalizing t with
  | zero => exact .pure t
  | succ n ih =>
    have hsum : roundSteps fillers (n + 1) t = (t.top + 1) +
        match t.round fillers with
        | (t, true) => roundSteps fillers n t
        | (_, false) => 0 := by
      rw [roundSteps, played, List.map_cons, List.sum_cons]
      cases t.round fillers with
      | mk u changed => cases changed <;> rfl
    rw [hsum]
    refine (Steps.charge hlimit _).bind fun _ => ?_
    cases t.round fillers with
    | mk u changed =>
      cases changed with
      | true => exact ih u
      | false => exact .pure u

theorem steps_computeFor (hlimit : limit < maxSteps) (c : Catalog) (key : TableKey) :
    Steps (computeFor limit c key) (key.steps c) := by
  have hbound : (ofKey c key).bound = room (c.fillers key.granted key.memory) key.budget :=
    size_ofFillers _ _
  rw [TableKey.steps, hbound]
  exact (Steps.charge hlimit _).bind fun _ => steps_rounds hlimit _ _ _

end Reach

/-! ## Sessions that tell right -/

/-- The session has counted `n` loops as bodies of others, and its steps are one for each examined
iteration count and those of the tables that have been computed. -/
structure Session.Tells (c : Catalog) (n : Nat) (s : Session) : Prop where
  nested : s.stats.nestedLoops = n
  steps : s.stats.steps = s.stats.candidates + (s.tables.map fun p => p.1.steps c).sum

/-- In a session that has counted `before` nested loops, a computation that returns leaves one that
tells right and has counted as many as `after` says. If it fails, no nested loop is counted. -/
def Tallies {α : Type} (c : Catalog) (before : Nat) (x : SearchM α) (after : α → Nat) : Prop :=
  ∀ s, s.Tells c before → match x.run s with
    | .ok a t => t.Tells c (after a)
    | .error _ t => t.stats.nestedLoops = 0

namespace Tallies

variable {α β : Type} {c : Catalog} {limit n : Nat} {x : SearchM α} {after : α → Nat}

theorem pure (a : α) (h : after a = n) : Tallies c n (pure a) after := by
  intro s hs
  show s.Tells c (after a)
  rwa [h]

/-- Nothing fails while a nested loop is counted. -/
theorem ofCatalog (e : Except CatalogError α) : Tallies c 0 (ofCatalog e) fun _ => 0 := by
  cases e with
  | ok a => exact .pure a rfl
  | error e => exact fun _ hs => hs.nested

theorem bind {f : α → SearchM β} {after' : β → Nat} (hx : Tallies c n x after)
    (hf : ∀ a, Tallies c (after a) (f a) after') : Tallies c n (x >>= f) after' := by
  intro s hs
  have hfirst := hx s hs
  rw [EStateM.run_bind]
  cases hrun : x.run s with
  | error e t => rwa [hrun] at hfirst
  | ok a t =>
    rw [hrun] at hfirst
    exact hf a t hfirst

/-- Counting what is neither a nested loop nor an iteration count changes nothing of this. -/
theorem record {f : Stats → Stats} (hnested : ∀ s, (f s).nestedLoops = s.nestedLoops)
    (hcandidates : ∀ s, (f s).candidates = s.candidates) (hsteps : ∀ s, (f s).steps = s.steps) :
    Tallies c n (record f) fun _ => n := by
  intro s hs
  show Session.Tells c n { s with stats := f s.stats }
  refine ⟨(hnested _).trans hs.nested, ?_⟩
  rw [hsteps, hcandidates]
  exact hs.steps

theorem recordLoop (width : CounterWidth) : Tallies c n (recordLoop width) fun _ => n := by
  cases width with
  | wide =>
    exact record (f := fun s => { s with wideLoops := s.wideLoops + 1 }) (fun _ => rfl) (fun _ => rfl)
      fun _ => rfl
  | narrow =>
    exact record (f := fun s => { s with narrowLoops := s.narrowLoops + 1 }) (fun _ => rfl)
      (fun _ => rfl) fun _ => rfl

theorem recordNested : Tallies c n recordNested fun _ => n + 1 :=
  fun _ hs => ⟨congrArg (· + 1) hs.nested, hs.steps⟩

/-- One step is counted for each examined iteration count. -/
theorem examined (hlimit : limit < maxSteps) (hx : Tallies c 0 x after) :
    Tallies c 0 (charge limit 1 >>= fun _ => recordCandidate >>= fun _ => x) after := by
  intro s hs
  have hcharge := Steps.charge hlimit 1 s
  rw [EStateM.run_bind]
  cases hrun : (SearchM.charge limit 1).run s with
  | error e t =>
    rw [hrun] at hcharge
    exact hcharge.trans hs.nested
  | ok a t =>
    rw [hrun] at hcharge
    obtain rfl : t = s.stepped 1 := hcharge
    refine hx _ ⟨hs.nested, ?_⟩
    show s.stats.steps + 1 = s.stats.candidates + 1 + _
    rw [hs.steps]
    exact Nat.add_right_comm _ _ _

/-- A table that is computed is kept, and its steps are counted with it. -/
theorem obtain (hlimit : limit < maxSteps) (key : TableKey) :
    Tallies c 0 (Reach.obtain true limit c key) fun _ => 0 := by
  intro s hs
  cases hlookup : s.tables.lookup key with
  | some t =>
    rw [Reach.run_obtain_of_some hlookup]
    exact ⟨hs.nested, hs.steps⟩
  | none =>
    rw [Reach.run_obtain_of_none hlookup]
    have hsteps := Reach.steps_computeFor hlimit c key s
    cases hrun : (Reach.computeFor limit c key).run s with
    | error e u =>
      rw [hrun] at hsteps
      exact hsteps.trans hs.nested
    | ok t u =>
      rw [hrun] at hsteps
      obtain rfl : u = s.stepped (key.steps c) := hsteps
      refine ⟨hs.nested, ?_⟩
      show s.stats.steps + key.steps c =
        s.stats.candidates + (key.steps c + (s.tables.map fun p => p.1.steps c).sum)
      rw [hs.steps]
      omega

end Tallies

namespace Synthesizer

variable {m : Machine} {config : Config} {test : SpillTest} {r : Request}

/-- A synthesizer whose sessions keep their tables. -/
abbrev keeping (m : Machine) (config : Config) : Synthesizer where
  machine := m
  config := config

/-! ## Loops -/

/-- The number of bodies in a loop that are loops, or none if there is no loop. -/
def nestedIn (found : Option (Loop Code)) : Nat :=
  found.elim 0 fun l => l.body.levels

section

variable {nested : Window → SearchM (Option (Loop Code))}

theorem tallies_body? (hlimit : config.stepLimit < maxSteps)
    (hnested : ∀ w, Tallies m.catalog 0 (nested w) nestedIn) (g : LoopGoal) (n : Nat) :
    Tallies m.catalog 0 (g.body? (keeping m config) nested n) fun found =>
      found.elim 0 Code.levels := by
  refine .examined hlimit ?_
  simp only
  split
  · exact .pure none rfl
  refine (Tallies.obtain hlimit g.bodyKey).bind fun table => ?_
  split
  · refine .pure _ ?_
    cases table.lookupWindow (g.window.body n g.perIteration) with
    | none => rfl
    | some flat => exact Code.levels_group flat
  refine (hnested _).bind fun found => ?_
  cases found with
  | none => exact .pure none rfl
  | some inner => exact Tallies.recordNested.bind fun _ => .pure _ (Code.levels_loop inner)

/-- With a body that has been found, nothing fails any more. -/
theorem tallies_close {g : LoopGoal} {o : LoopOverhead}
    (ho : m.overhead g.width g.counter = .ok o) (body : Code) (n : Nat) :
    Tallies m.catalog body.levels (g.close (keeping m config) body n) fun l => l.body.levels := by
  obtain ⟨init, decrement, branch, hinit, hdecrement, hbranch⟩ :=
    Machine.control_of_overhead ho n (m.target.loopLabel g.depth)
  unfold LoopGoal.close
  simp only [hinit, hdecrement, hbranch, SearchM.ofCatalog, pure_bind]
  exact .pure _ rfl

theorem tallies_countDown (hlimit : config.stepLimit < maxSteps)
    (hnested : ∀ w, Tallies m.catalog 0 (nested w) nestedIn) {g : LoopGoal} {o : LoopOverhead}
    (ho : m.overhead g.width g.counter = .ok o) (n : Nat) :
    Tallies m.catalog 0 (g.countDown (keeping m config) nested n) nestedIn := by
  induction n with
  | zero => exact .pure none rfl
  | succ n ih =>
    cases n with
    | zero => exact .pure none rfl
    | succ n =>
      refine (tallies_body? hlimit hnested g (n + 2)).bind fun found => ?_
      cases found with
      | none => exact ih
      | some body =>
        simp only [map_eq_pure_bind]
        exact (tallies_close ho body (n + 2)).bind fun l => .pure (some l) rfl

end

theorem tallies_loopOfWidth? {nested : ResourceSet → Window → SearchM (Option (Loop Code))}
    (hlimit : config.stepLimit < maxSteps)
    (hnested : ∀ granted w, Tallies m.catalog 0 (nested granted w) nestedIn) (memory : List String)
    (budget : Nat) (window : Window) (granted : ResourceSet) (depth : Nat) (width : CounterWidth) :
    Tallies m.catalog 0
      ((keeping m config).loopOfWidth? nested memory budget window granted depth width) nestedIn := by
  unfold Synthesizer.loopOfWidth?
  cases m.target.pickCounter? granted width with
  | none => exact .pure none rfl
  | some picked =>
    refine (Tallies.recordLoop width).bind fun _ => ?_
    cases ho : m.overhead width picked.1 with
    | error e => exact fun _ hs => hs.nested
    | ok o =>
      simp only [SearchM.ofCatalog, pure_bind]
      split
      · exact .pure none rfl
      · exact tallies_countDown hlimit (hnested _) ho _

theorem tallies_loop? (hlimit : config.stepLimit < maxSteps) (memory : List String) (budget : Nat)
    (window : Window) (granted : ResourceSet) (depth : Nat) :
    Tallies m.catalog 0 ((keeping m config).loop? memory budget window granted depth) nestedIn := by
  fun_induction Synthesizer.loop? (keeping m config) memory budget window granted depth with
  | case1 budget window granted depth nested ih =>
    refine (tallies_loopOfWidth? hlimit ih _ _ _ _ _ .wide).bind fun found => ?_
    cases found with
    | some l => exact .pure (some l) rfl
    | none => exact tallies_loopOfWidth? hlimit ih _ _ _ _ _ .narrow
  | case2 budget window granted depth hbudget => exact .pure none rfl

/-! ## Main parts and routines -/

/-- The number of bodies in a main part that are loops, or none if there is no main part. -/
def nestedInMain (found : Option Code) : Nat :=
  found.elim 0 fun main => main.levels - 1

theorem tallies_main? (hlimit : config.stepLimit < maxSteps) (window : Window)
    (granted : ResourceSet) (memory : List String) (budget : Nat) :
    Tallies m.catalog 0 ((keeping m config).main? window granted memory budget) nestedInMain := by
  unfold Synthesizer.main?
  split
  · exact .pure none rfl
  refine (Tallies.obtain hlimit _).bind fun table => ?_
  simp only
  split
  · exact .pure _ rfl
  · refine (tallies_loop? hlimit _ _ _ _ _).bind fun found => .pure _ ?_
    cases found with
    | none => rfl
    | some l => exact congrArg (· - 1) (Code.levels_loop l)

theorem tallies_attempts? {c : Catalog} {seek : Nat → SearchM (Option Code)}
    (hseek : ∀ budget, Tallies c 0 (seek budget) nestedInMain) (budget n attempt : Nat) :
    Tallies c 0 (attempts? seek budget n attempt) nestedInMain := by
  have hattempt (attempt : Nat) : Tallies c 0 (attempt? seek budget attempt) nestedInMain := by
    unfold attempt?
    split
    · refine Tallies.bind (.record (f := fun s => { s with budgetRetries := s.budgetRetries + 1 })
        (fun _ => rfl) (fun _ => rfl) fun _ => rfl) fun _ => hseek _
    · exact hseek _
  induction n generalizing attempt with
  | zero => exact hattempt attempt
  | succ n ih =>
    refine (hattempt attempt).bind fun found => ?_
    cases found with
    | some main => exact .pure (some main) rfl
    | none => exact ih (attempt + 1)

theorem tallies_freeRegisters? (window : Window) (n : Nat) (f : Frame) :
    Tallies m.catalog 0 ((keeping m config).freeRegisters? test window n f) fun _ => 0 := by
  induction n generalizing f with
  | zero => exact .pure (some f) rfl
  | succ n ih =>
    refine (Tallies.ofCatalog _).bind fun asked => ?_
    cases asked with
    | false => exact .pure (some f) rfl
    | true =>
      have hspill : Tallies m.catalog 0 ((keeping m config).spill f) fun _ => 0 := by
        unfold Synthesizer.spill
        split
        · rename_i outcome g _
          refine Tallies.bind (.record (fun s => ?_) (fun s => ?_) fun s => ?_) fun _ => .pure _ rfl
          all_goals cases outcome <;> rfl
        · exact .pure _ rfl
      refine hspill.bind fun ⟨result, g⟩ => (Tallies.ofCatalog result).bind fun outcome => ?_
      cases outcome with
      | memory r => exact ih g
      | stack r => exact ih g
      | nothingToFree => exact .pure (some g) rfl
      | infeasible => exact .pure none rfl

theorem tallies_routine? (hlimit : config.stepLimit < maxSteps) :
    Tallies m.catalog 0 ((keeping m config).routine? test r) fun found =>
      nestedInMain (found.map Routine.main) := by
  have hret : Tallies m.catalog 0 ((keeping m config).returnFor? r) fun _ => 0 := by
    unfold Synthesizer.returnFor?
    split
    · rw [map_eq_pure_bind]
      exact (Tallies.ofCatalog _).bind fun i => .pure (some i) rfl
    · exact .pure none rfl
  refine hret.bind fun ret? => (tallies_freeRegisters? _ _ _).bind fun f? => ?_
  cases f? with
  | none => exact .pure none rfl
  | some f =>
    refine (tallies_attempts? (fun _ => tallies_main? hlimit _ _ _ _) _ _ _).bind fun main? => ?_
    cases main? with
    | none => exact .pure none rfl
    | some main => exact .pure _ rfl

/-! ## Builds -/

theorem tells_empty (c : Catalog) : Session.Tells c 0 {} :=
  ⟨rfl, rfl⟩

/-- The main part of a routine that is built is a chain of loops, or a flat sequence. -/
theorem RoutineFound.exists_chain {y : Synthesizer} {f : Frame} {routine : Routine Code}
    (h : y.RoutineFound test r f routine) : ∃ links, Chain routine.main links := by
  obtain ⟨_, -, hmain⟩ := h.main
  generalize routine.main = main at hmain
  cases hmain with
  | flat _ _ found =>
    obtain ⟨items, rfl, -⟩ := Reach.length_lookupWindow_le found
    exact ⟨[], .flat items⟩
  | loop _ found =>
    obtain ⟨links, hchain, -⟩ := found.chain
    exact ⟨links, hchain⟩

/-- In a build whose steps fit a word, the nested loops that are counted are those of the routine, and
none without a routine, whether or not the search was stopped. If it was not, its steps are one for
each examined iteration count and those of the tables in its session, each computed once. -/
theorem nested_loops_told (m : Machine) (config : Config) (test : SpillTest) (r : Request)
    (hlimit : 2 * config.stepLimit < bound64) {found : Option (Routine Code)} {stats : Stats}
    (hbuild : (keeping m config).buildWith test r = .ok (found, stats)) :
    (found = none → stats.nestedLoops = 0) ∧
    (∀ routine ∈ found, ∃ links, Chain routine.main links ∧ stats.nestedLoops = links.length - 1) ∧
    (stats.steps ≤ config.stepLimit →
      ∃ s, ((keeping m config).routine? test r).run {} = .ok found s ∧ s.stats = stats ∧
        s.Sound m.catalog ∧
        stats.steps = stats.candidates + (s.tables.map fun p => p.1.steps m.catalog).sum) := by
  have hmax : config.stepLimit < maxSteps := by
    simp only [maxSteps, bound64] at hlimit ⊢
    omega
  have htallies : Tallies m.catalog 0 ((keeping m config).routine? test r) fun found =>
      nestedInMain (found.map Routine.main) :=
    tallies_routine? hmax
  have htallies := htallies {} (tells_empty m.catalog)
  obtain ⟨-, s, rfl, ⟨hrun, -⟩ | ⟨rfl, hstopped, limit, hrun⟩⟩ := run_of_buildWith hbuild
  · rw [hrun] at htallies
    obtain ⟨hnested, hsteps⟩ := htallies
    have hsound : s.Sound m.catalog :=
      (((related_keepsSound m config).routine? rfl test r).of_ok (.empty _) hrun).1
    refine ⟨?_, ?_, fun _ => ⟨s, hrun, rfl, hsound, hsteps⟩⟩
    · rintro rfl
      exact hnested
    · rintro routine rfl
      obtain ⟨f, hfound⟩ := routineFound_of_build hbuild
      obtain ⟨links, hchain⟩ := hfound.exists_chain
      exact ⟨links, hchain, by rw [hnested, hchain.length_eq]; rfl⟩
  · rw [hrun] at htallies
    refine ⟨fun _ => htallies, ?_, fun hle => absurd hstopped (Nat.not_lt.mpr hle)⟩
    rintro _ ⟨⟩

/-- A request that a loop in a loop meets. -/
def nestRequest : Request where
  min := 178
  max := 178
  resources := [.register "B", .register "D"]
  budget := 7
  includeReturn := false

set_option maxRecDepth 100000 in
/-- Of the 299 steps, eleven are for iteration counts, and the others are for three tables. -/
theorem nested_loops_told_nest : ∃ routine stats s links,
    I8085.synthesizer.build nestRequest = .ok (some routine, stats) ∧
    2 * I8085.synthesizer.config.stepLimit < bound64 ∧
    Chain routine.main links ∧ links.length = 2 ∧
    Session.Sound I8085.catalog s ∧ s.tables.length = 3 ∧
    (s.tables.map fun p => p.1.steps I8085.catalog).sum = 288 := by
  obtain ⟨routine, stats, h⟩ := exists_of_isSome_built?
    (show (built? (I8085.synthesizer.build nestRequest)).isSome = true by decide +kernel)
  have hlimit : 2 * I8085.synthesizer.config.stepLimit < bound64 := by decide
  have htold : (I8085.synthesizer.build nestRequest).toOption.map Prod.snd =
      some { tablesComputed := 3, memoHits := 1, narrowLoops := 2, candidates := 11, nestedLoops := 1,
             steps := 299 } := by
    decide +kernel
  rw [h] at htold
  obtain rfl := Option.some.inj htold
  obtain ⟨-, hnested, hsteps⟩ :=
    nested_loops_told I8085.machine {} I8085.synthesizer.spillTest nestRequest hlimit h
  obtain ⟨links, hchain, hlength⟩ := hnested routine rfl
  obtain ⟨s, -, hstats, hsound, hsum⟩ := hsteps (by decide)
  have htables : 3 = s.tables.length := by
    have := hsound.counted
    rwa [hstats] at this
  replace hlength : 1 = links.length - 1 := hlength
  replace hsum : 299 = 11 + (s.tables.map fun p => p.1.steps I8085.catalog).sum := hsum
  exact ⟨routine, _, s, links, h, hlimit, hchain, by omega, hsound, htables.symm, by omega⟩

end Synthesizer

end DelaySynth
