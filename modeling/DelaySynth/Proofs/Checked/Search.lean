import DelaySynth.Proofs.Checked.Sessions
import DelaySynth.Proofs.Machine

/-!
# The loop search within words

The search for loops, with a check of every window, negation, quotient, sum of cycles, iteration count
and nesting depth. Loops are sought only in windows that begin above zero: any other window holds the
empty sequence, and a body is sought as a loop only beyond the longest flat sequence. So what is taken
off a window, again at each level, never brings its lower end far below zero.

* `Checked.Sought`: the windows in which loops are sought.
* `Checked.inRange_loop?`: nothing is out of range, whatever the depth.
-/

namespace DelaySynth

/-- What a loop spends is a sum of two rows at most. -/
theorem Machine.overhead_lt {m : Machine} {bound : Nat}
    (hrows : ∀ row ∈ m.catalog.rows, row.duration < bound) {width : CounterWidth}
    {counter : Register} {o : LoopOverhead} (h : m.overhead width counter = .ok o) :
    o.init < bound ∧ o.perIteration < 2 * bound := by
  obtain ⟨init, decrement, branch, hinit, hdecrement, hbranch, rfl⟩ := Machine.overhead_eq_ok h
  have hinit := hrows _ (Catalog.lookup_eq_ok hinit).1
  have hdecrement := hrows _ (Catalog.lookup_eq_ok hdecrement).1
  have hbranch := hrows _ (Catalog.lookup_eq_ok hbranch).1
  exact ⟨hinit, by simp only; omega⟩

namespace Checked

open SearchM Reach

/-! ## Iteration counts -/

/-- The largest iteration count to try. -/
def maxIterations (g : LoopGoal) (t : Target) : Option Nat := do
  let fits ← signed (g.window.max.tdiv g.perIteration)
  return min (t.maxIterations g.width) (← short (min fits (bound32 - 1 : Nat)))

/-- Seeks a body for `n` iterations; `nested` seeks a loop for a window. -/
def body? (y : Synthesizer) (nested : Window → CheckedM (Option (Loop Code))) (g : LoopGoal)
    (n : Nat) : CheckedM (Option Code) := do
  charge y.config.stepLimit 1
  recordCandidate
  let window ← demand (body g.window n g.perIteration)
  if window.Hopeless then return none
  let table ← obtain y.keepTables y.config.stepLimit y.machine.catalog g.bodyKey
  if window.min ≤ (← demand (signed table.top)) then
    return (← demand (lookupWindow table window)).map .group
  match ← nested window with
  | some inner =>
    recordNested
    return some (.loop inner)
  | none => return none

/-- Tries the iteration counts from `n` down to two. -/
def countDown (y : Synthesizer) (nested : Window → CheckedM (Option (Loop Code))) (g : LoopGoal) :
    (n : Nat) → CheckedM (Option (Loop Code))
  | n + 2 => do
    match ← body? y nested g (n + 2) with
    | some body => return some (← g.close y body (n + 2))
    | none => countDown y nested g (n + 1)
  | _ => return none

/-- Seeks a loop with a counter of one width; `nested` seeks a loop under a grant for a window. -/
def loopOfWidth? (y : Synthesizer)
    (nested : ResourceSet → Window → CheckedM (Option (Loop Code))) (memory : List String)
    (bodyBudget : Nat) (window : Window) (granted : ResourceSet) (depth : Nat)
    (width : CounterWidth) : CheckedM (Option (Loop Code)) := do
  let some (counter, bodyGranted) := y.machine.target.pickCounter? granted width | return none
  recordLoop width
  let overhead ← (ofCatalog (y.machine.overhead width counter) : SearchM LoopOverhead)
  let perIteration ← demand (signed (← demand (word overhead.perIteration)))
  let goal : LoopGoal :=
    { width, counter, depth, perIteration
      window := ← demand (minus window overhead.init)
      bodyKey := { budget := bodyBudget, granted := bodyGranted, memory } }
  if goal.window.max < 0 ∨ goal.perIteration = 0 then return none
  countDown y (nested bodyGranted) goal (← demand (maxIterations goal y.machine.target))

/-- Seeks a loop that lasts between the ends of a window and holds at most `budget` instructions. -/
def loop? (y : Synthesizer) (memory : List String) :
    (budget : Nat) → Window → ResourceSet → (depth : Nat) → CheckedM (Option (Loop Code))
  | bodyBudget + 3, window, granted, depth => do
    let nested := fun granted window => do
      loop? y memory bodyBudget window granted (← demand (short (depth + 1 : Nat)))
    match ← loopOfWidth? y nested memory bodyBudget window granted depth .wide with
    | some found => return some found
    | none => loopOfWidth? y nested memory bodyBudget window granted depth .narrow
  | _, _, _, _ => return none

/-! ## Windows for loops -/

/-- A window in which a loop is sought. -/
structure Sought (w : Window) : Prop extends Signed w where
  pos : 0 < w.min

/-- What is sought with a counter is far from the ends of the words. -/
structure Roomy (g : LoopGoal) : Prop where
  low : -(bound64 : Int) < 4 * g.window.min
  le : g.window.min ≤ g.window.max
  lt : 2 * g.window.max < bound64
  perIteration : ∃ cycles : Nat, g.perIteration = cycles ∧ 4 * cycles < bound64

theorem signed_cycles {n : Nat} (h : 2 * n < bound64) : signed n = some (signedCycles n) := by
  rw [signedCycles_of_lt h]
  exact signed_eq (by omega) (by omega)

theorem body_max_le {w : Window} {n cycles : Nat} (hn : 0 < n) :
    (w.body n cycles).max ≤ max w.max 0 := by
  have hquotient := ediv_bounds (a := w.max) hn
  simp only [Window.body]
  omega

variable {y : Synthesizer} {g : LoopGoal}

theorem roomy_mk {w : Window} (hw : Sought w) {o : LoopOverhead} (hinit : o.init < bound32)
    (hper : o.perIteration < 2 * bound32) (width : CounterWidth) (counter : Register)
    (key : TableKey) (depth : Nat) :
    Roomy ⟨width, counter, signedCycles o.perIteration, w.minus o.init, key, depth⟩ := by
  have hword := bound32_lt_bound64
  have hpos := hw.pos
  have hle := hw.le
  have hlt := hw.lt
  rw [Window.minus_of_lt (by omega), signedCycles_of_lt (by omega)]
  constructor
  · show -(bound64 : Int) < 4 * (w.min - o.init)
    omega
  · show w.min - o.init ≤ w.max - o.init
    omega
  · show 2 * (w.max - o.init) < bound64
    omega
  · exact ⟨o.perIteration, rfl, by omega⟩

theorem Roomy.body_eq (h : Roomy g) {n : Nat} (hn : 0 < n) :
    body g.window n g.perIteration = some (g.window.body n g.perIteration) := by
  obtain ⟨cycles, hcycles, hper⟩ := h.perIteration
  have hlow := h.low
  have hle := h.le
  have hlt := h.lt
  rw [hcycles]
  exact Checked.body_eq hn hper hlow (by omega) (by omega) hlt

/-- A body that flat sequences are too short for is sought in such a window again. -/
theorem Roomy.sought_body (h : Roomy g) {n top : Nat} (hn : 0 < n)
    (hhopeful : ¬(g.window.body n g.perIteration).Hopeless)
    (hbeyond : ¬(g.window.body n g.perIteration).min ≤ top) :
    Sought (g.window.body n g.perIteration) := by
  obtain ⟨cycles, hcycles, -⟩ := h.perIteration
  have hlt := h.lt
  rw [hcycles] at hhopeful hbeyond ⊢
  have hmax : (g.window.body n cycles).max ≤ max g.window.max 0 := body_max_le hn
  simp only [Window.Hopeless] at hhopeful
  exact ⟨⟨by omega, by omega, by omega⟩, by omega⟩

theorem Roomy.maxIterations_eq (h : Roomy g) (hmax : 0 ≤ g.window.max) (t : Target) :
    maxIterations g t = some (g.maxIterations t) := by
  obtain ⟨cycles, hcycles, -⟩ := h.perIteration
  have hlt := h.lt
  have hnonneg : 0 ≤ g.window.max.tdiv g.perIteration := by
    rw [hcycles]
    exact Int.tdiv_nonneg hmax (Int.natCast_nonneg cycles)
  have hle : g.window.max.tdiv g.perIteration ≤ g.window.max := Int.tdiv_le_self _ hmax
  have hbound : ((bound32 - 1 : Nat) : Int) < bound32 := by decide
  have hfits : 0 ≤ min (g.window.max.tdiv g.perIteration) (bound32 - 1 : Nat) :=
    le_min hnonneg (Int.natCast_nonneg _)
  have hfits' : min (g.window.max.tdiv g.perIteration) (bound32 - 1 : Nat) < bound32 :=
    lt_of_le_of_lt (min_le_right _ _) hbound
  have hshort : short (min (g.window.max.tdiv g.perIteration) (bound32 - 1 : Nat)) =
      some (min (g.window.max.tdiv g.perIteration) (bound32 - 1 : Nat)).toNat :=
    if_pos ⟨hfits, hfits'⟩
  rw [maxIterations, signed_eq (by omega) (by omega), LoopGoal.maxIterations]
  simp only [Option.bind_eq_bind, Option.bind_some]
  rw [hshort, Int.emod_eq_of_lt hfits hfits']
  rfl

/-! ## The search -/

/-- Nothing is out of range in a part of the search. -/
abbrev StaysInRange {α : Type} (y : Synthesizer) (x : SearchM α) (x' : CheckedM α) : Prop :=
  InRange (Session.Sized y.machine.catalog y.config.stepLimit) x x' fun _ => True

section Search

variable {nested : Window → SearchM (Option (Loop Code))}
  {nested' : Window → CheckedM (Option (Loop Code))}

theorem inRange_body? (hlimit : 2 * y.config.stepLimit < bound64)
    (hnested : ∀ w, Sought w → StaysInRange y (nested w) (nested' w))
    (hg : Roomy g) {n : Nat} (hn : 0 < n) :
    StaysInRange y (g.body? y nested n) (body? y nested' g n) := by
  refine (InRange.of_lift (ensures_charge _)).bind fun _ _ => ?_
  refine (InRange.of_lift (ensures_record _)).bind fun _ _ => ?_
  refine InRange.demand_bind (hg.body_eq hn) ?_
  simp only
  by_cases hhopeful : (g.window.body n g.perIteration).Hopeless
  · rw [if_pos hhopeful, if_pos hhopeful]
    exact .of_pure trivial
  rw [if_neg hhopeful, if_neg hhopeful]
  refine (inRange_obtain hlimit _ _).bind fun table hobtained => ?_
  obtain ⟨htable, htop⟩ := hobtained
  refine InRange.demand_bind (signed_eq (i := table.top) (by omega) (by omega)) ?_
  by_cases hwithin : (g.window.body n g.perIteration).min ≤ table.top
  · rw [if_pos hwithin, if_pos hwithin]
    have hlookup : lookupWindow table (g.window.body n g.perIteration) =
        some (table.lookupWindow (g.window.body n g.perIteration)) := by
      subst htable
      exact lookupWindow_eq htop
    exact InRange.demand_bind hlookup (.of_pure trivial)
  · rw [if_neg hwithin, if_neg hwithin]
    refine (hnested _ (hg.sought_body hn hhopeful hwithin)).bind fun found _ => ?_
    cases found with
    | none => exact .of_pure trivial
    | some inner => exact (InRange.of_lift (ensures_record _)).bind fun _ _ => .of_pure trivial

theorem inRange_countDown (hlimit : 2 * y.config.stepLimit < bound64)
    (hnested : ∀ w, Sought w → StaysInRange y (nested w) (nested' w))
    (hg : Roomy g) (n : Nat) :
    StaysInRange y (g.countDown y nested n) (countDown y nested' g n) := by
  have hclose (body : Code) (n : Nat) :
      Ensures (Session.Sized y.machine.catalog y.config.stepLimit) (fun _ _ => True)
        (g.close y body n) fun _ => True :=
    (ensures_ofCatalog _).bind fun _ _ => (ensures_ofCatalog _).bind fun _ _ =>
      (ensures_ofCatalog _).bind fun _ _ => .of_pure trivial
  induction n with
  | zero => exact .of_pure trivial
  | succ n ih =>
    cases n with
    | zero => exact .of_pure trivial
    | succ n =>
      refine (inRange_body? hlimit hnested hg (Nat.succ_pos _)).bind fun found _ => ?_
      cases found with
      | none => exact ih
      | some body =>
        simp only [map_eq_pure_bind]
        exact (InRange.of_lift (hclose body (n + 2))).bind fun _ _ => .of_pure trivial

end Search

theorem inRange_loopOfWidth? (hrows : ∀ row ∈ y.machine.catalog.rows, row.duration < bound32)
    (hlimit : 2 * y.config.stepLimit < bound64)
    {nested : ResourceSet → Window → SearchM (Option (Loop Code))}
    {nested' : ResourceSet → Window → CheckedM (Option (Loop Code))}
    (hnested : ∀ granted w, Sought w → StaysInRange y (nested granted w) (nested' granted w))
    (memory : List String) (budget : Nat) {w : Window} (hw : Sought w) (granted : ResourceSet)
    (depth : Nat) (width : CounterWidth) :
    StaysInRange y (y.loopOfWidth? nested memory budget w granted depth width)
      (loopOfWidth? y nested' memory budget w granted depth width) := by
  unfold Synthesizer.loopOfWidth? loopOfWidth?
  cases y.machine.target.pickCounter? granted width with
  | none => exact .of_pure trivial
  | some picked =>
    obtain ⟨counter, rest⟩ := picked
    refine (InRange.of_lift (ensures_recordLoop width)).bind fun _ _ => ?_
    refine (InRange.of_lift (ensures_ofCatalog _)).bind fun o ho => ?_
    obtain ⟨hinit, hper⟩ := Machine.overhead_lt hrows ho
    have hword := bound32_lt_bound64
    have hpos := hw.pos
    obtain ⟨hminus, -⟩ := hw.minus (show 2 * o.init < bound64 by omega) (by omega)
    refine InRange.demand_bind (word_eq (by omega)) ?_
    refine InRange.demand_bind (signed_cycles (by omega)) ?_
    refine InRange.demand_bind hminus ?_
    have hroomy := roomy_mk hw hinit hper width counter ⟨budget, rest, memory⟩ depth
    simp only
    split
    · exact .of_pure trivial
    · rename_i hstarted
      have hmax : 0 ≤ (w.minus o.init).max := Int.not_lt.mp (not_or.mp hstarted).1
      refine InRange.demand_bind (hroomy.maxIterations_eq hmax _) ?_
      exact inRange_countDown hlimit (hnested rest) hroomy _

/-- Nothing is out of range in the search for a loop. Each level of loops takes three instructions off
the budget, and so there are fewer levels than the budget has instructions. -/
theorem inRange_loop? (hrows : ∀ row ∈ y.machine.catalog.rows, row.duration < bound32)
    (hlimit : 2 * y.config.stepLimit < bound64) (memory : List String) {budget depth : Nat}
    {w : Window} (hw : Sought w) (granted : ResourceSet) (hdepth : depth + budget < bound32) :
    StaysInRange y (y.loop? memory budget w granted depth)
      (loop? y memory budget w granted depth) := by
  induction budget using Nat.strong_induction_on generalizing w granted depth with
  | _ budget ih =>
    match budget with
    | 0 | 1 | 2 => exact .of_pure trivial
    | budget + 3 =>
      have hnested (granted : ResourceSet) (w : Window) (hw : Sought w) :
          StaysInRange y (y.loop? memory budget w granted (depth + 1))
            (demand (short (depth + 1 : Nat)) >>= fun depth =>
              loop? y memory budget w granted depth) :=
        InRange.demand_bind (short_eq (by omega)) (ih budget (by omega) hw granted (by omega))
      have hwidth (width : CounterWidth) :=
        inRange_loopOfWidth? hrows hlimit hnested memory budget hw granted depth width
      unfold Synthesizer.loop? loop?
      refine (hwidth .wide).bind fun found _ => ?_
      cases found with
      | some l => exact .of_pure trivial
      | none => exact hwidth .narrow

end Checked

end DelaySynth
