import DelaySynth.Proofs.Reach.Answered
import DelaySynth.Proofs.Search.Candidates
import DelaySynth.Proofs.Timing

/-!
# Loops around flat sequences

A window may be met by a loop whose body is a flat sequence. Such a loop is found, if there is one on
the counter that the grant and the width decide on: its number of iterations is among those that are
tried, its body lies in the window for it, and flat sequences that reach that far are not passed over
for a loop in the loop.

* `SingleLoop`: a number of iterations and a flat sequence that meet a window.
* `SingleLoop.loopFound`: they make a loop that the search may return.
* `single_loop_found`: so the search does not end without one, unless it fails.
-/

namespace DelaySynth

namespace Synthesizer

variable {y : Synthesizer} {memory : List String} {budget depth n : Nat} {window : Window}
  {granted rest : ResourceSet} {width : CounterWidth} {name : Register} {o : LoopOverhead}
  {picked : List Row}

/-- With the counter of a width that a grant decides on, `n` iterations of a body of `picked` rows last
as long as a window asks for. The rows are admitted without the counter, and together with the three
control instructions they stay within a budget. -/
structure SingleLoop (y : Synthesizer) (budget : Nat) (window : Window) (granted : ResourceSet)
    (width : CounterWidth) (name : Register) (rest : ResourceSet) (o : LoopOverhead) (n : Nat)
    (picked : List Row) : Prop where
  counter : y.machine.target.pickCounter? granted width = some (name, rest)
  overhead : y.machine.overhead width name = .ok o
  two_le : 2 ≤ n
  le_max : n ≤ y.machine.target.maxIterations width
  admissible : ∀ row ∈ picked, row ∈ y.machine.catalog.rows ∧ row.Admissible rest
  room : picked.length + 3 ≤ budget
  window_min : window.min ≤ (o.init + n * ((picked.map Row.duration).sum + o.perIteration) : Nat)
  window_max : (o.init + n * ((picked.map Row.duration).sum + o.perIteration) : Nat) ≤ window.max

/-- With rows that last less than a word of 32 bits, the cost of a loop is below half of a word of 64
bits. -/
theorem overhead_lt (hrows : ∀ row ∈ y.machine.catalog.rows, row.duration < bound32)
    (h : y.machine.overhead width name = .ok o) :
    2 * o.init < bound64 ∧ 2 * o.perIteration < bound64 := by
  obtain ⟨init, decrement, branch, hinit, hdecrement, hbranch, rfl⟩ := Machine.overhead_eq_ok h
  have hinit := hrows init (Catalog.lookup_eq_ok hinit).1
  have hdecrement := hrows decrement (Catalog.lookup_eq_ok hdecrement).1
  have hbranch := hrows branch (Catalog.lookup_eq_ok hbranch).1
  have hword := bound32_lt_bound64
  simp only
  omega

/-- If the rows last at least one cycle besides, then an iteration is not for free. -/
theorem overhead_bounds
    (hrows : ∀ row ∈ y.machine.catalog.rows, 0 < row.duration ∧ row.duration < bound32)
    (h : y.machine.overhead width name = .ok o) :
    0 < o.perIteration ∧ 2 * o.init < bound64 ∧ 2 * o.perIteration < bound64 := by
  refine ⟨?_, overhead_lt (fun row hrow => (hrows row hrow).2) h⟩
  obtain ⟨_, decrement, _, -, hdecrement, -, rfl⟩ := Machine.overhead_eq_ok h
  have hpos := (hrows decrement (Catalog.lookup_eq_ok hdecrement).1).1
  simp only
  omega

namespace SingleLoop

theorem pos (h : y.SingleLoop budget window granted width name rest o n picked) : 0 < n :=
  Nat.lt_of_lt_of_le Nat.two_pos h.two_le

/-- The rows last as long as the window for the body says. -/
theorem body_bounds
    (hrows : ∀ row ∈ y.machine.catalog.rows, 0 < row.duration ∧ row.duration < bound32)
    (h : y.SingleLoop budget window granted width name rest o n picked) :
    (bodyWindow window o n).min ≤ (picked.map Row.duration).sum ∧
      (picked.map Row.duration).sum ≤ (bodyWindow window o n).max := by
  obtain ⟨-, hinit, hper⟩ := overhead_bounds hrows h.overhead
  unfold bodyWindow
  constructor
  · rw [Window.le_body h.pos hper, Window.le_minus hinit]
    exact h.window_min
  · rw [Window.body_le h.pos hper, Window.minus_le hinit]
    exact h.window_max

/-- The rows last no longer than the whole loop. -/
theorem sum_le (h : y.SingleLoop budget window granted width name rest o n picked) :
    (picked.map Row.duration).sum ≤ window.max := by
  have hmax := h.window_max
  have hmul := Nat.le_mul_of_pos_left ((picked.map Row.duration).sum + o.perIteration) h.pos
  omega

/-- The window has room for what all iterations cost besides their bodies. -/
theorem mul_perIteration_le
    (hrows : ∀ row ∈ y.machine.catalog.rows, 0 < row.duration ∧ row.duration < bound32)
    (h : y.SingleLoop budget window granted width name rest o n picked) :
    (n : Int) * signedCycles o.perIteration ≤ (window.minus o.init).max := by
  obtain ⟨-, hinit, hper⟩ := overhead_bounds hrows h.overhead
  have hmax := h.window_max
  have hmul := Nat.mul_le_mul_left n (Nat.le_add_left o.perIteration (picked.map Row.duration).sum)
  rw [signedCycles_of_lt hper]
  exact_mod_cast (Window.minus_le hinit).mpr (by omega)

theorem loopFound
    (hrows : ∀ row ∈ y.machine.catalog.rows, 0 < row.duration ∧ row.duration < bound32)
    (hwords : ∀ width, y.machine.target.maxIterations width < bound32)
    (hmax : 2 * window.max < bound64)
    (h : y.SingleLoop budget window granted width name rest o n picked) (memory : List String)
    (depth : Nat) : ∃ l, y.LoopFound memory budget window granted depth l := by
  obtain ⟨c, hoffered, rfl, rfl, rfl, hgranted⟩ := Target.pickCounter?_eq_some h.counter
  obtain ⟨init, decrement, branch, hinit, hdecrement, hbranch⟩ :=
    Machine.control_of_overhead h.overhead n (y.machine.target.loopLabel depth)
  obtain ⟨budget, rfl⟩ : ∃ b, budget = b + 3 := ⟨budget - 3, by have := h.room; omega⟩
  -- The table for the body answers the window that is left for it.
  obtain ⟨hlow, hhigh⟩ := h.body_bounds hrows
  have hsum := h.sum_le
  have hfits : Row.Fits (y.machine.catalog.admissible (c.bodyKey memory budget granted).granted)
      (c.bodyKey memory budget granted).budget (bodyWindow window o n) picked :=
    ⟨fun row hrow => Catalog.mem_admissible.mpr (h.admissible row hrow),
      Nat.le_of_add_le_add_right h.room, by omega, hhigh⟩
  obtain ⟨hwithin, g, hg⟩ := Reach.answered_of_fits (by omega) hfits
  -- The number of iterations is among those that are tried.
  obtain ⟨hcost, -, hper⟩ := overhead_bounds hrows h.overhead
  have hroom := h.mul_perIteration_le hrows
  have hsigned : 0 < signedCycles o.perIteration := by
    rw [signedCycles_of_lt hper]
    exact Int.ofNat_lt.mpr hcost
  have htried : n ≤ (LoopGoal.on memory budget window granted depth c o).maxIterations
      y.machine.target := by
    have hword : n < bound32 := Nat.lt_of_le_of_lt h.le_max (hwords c.width)
    apply LoopGoal.le_maxIterations hword h.le_max
    · simpa only [LoopGoal.on] using hsigned
    · simpa only [LoopGoal.on] using hroom
  have hstarted : ¬((window.minus o.init).max < 0 ∨ signedCycles o.perIteration = 0) := by
    have hnonneg := Int.mul_nonneg (Int.natCast_nonneg n) (Int.le_of_lt hsigned)
    omega
  have hhopeful : ¬(bodyWindow window o n).Hopeless := by
    unfold Window.Hopeless
    omega
  refine ⟨⟨init, .group g, decrement, branch, y.machine.target.loopLabel depth, n⟩,
    .flat (c := c) (o := o) ?_ rfl hwithin hg⟩
  exact
    { counted :=
        { offered := hoffered, init := hinit, decrement := hdecrement, branch := hbranch
          label := rfl, two_le := h.two_le, le_max := h.le_max }
      picked := h.counter
      overhead := h.overhead
      started := hstarted
      tried := htried
      hopeful := hhopeful
      granted := hgranted }

end SingleLoop

/-- If a number of iterations and a flat sequence meet the window, the search ends with a loop, or with
an error: the catalog lists no instruction of a template that loops need, or the steps run out. -/
theorem single_loop_found (y : Synthesizer) (memory : List String) (budget : Nat) (window : Window)
    (granted : ResourceSet) (depth : Nat) {s : Session}
    (hrows : ∀ row ∈ y.machine.catalog.rows, 0 < row.duration ∧ row.duration < bound32)
    (hwords : ∀ width, y.machine.target.maxIterations width < bound32)
    (hmax : 2 * window.max < bound64) (hs : s.Faithful y.machine.catalog)
    (h : ∃ width name rest o n picked, y.SingleLoop budget window granted width name rest o n picked) :
    (∃ l t, (y.loop? memory budget window granted depth).run s = .ok (some l) t) ∨
    ∃ e t, (y.loop? memory budget window granted depth).run s = .error e t ∧
      e.EndsSearch y.config.stepLimit (fun e => ∃ template, e = .notFound template ∧
        ∀ row ∈ y.machine.catalog.rows, row.template ≠ template) t := by
  have hfinds : y.Finds (fun e => ∃ template, e = .notFound template ∧
        ∀ row ∈ y.machine.catalog.rows, row.template ≠ template)
      (y.loop? memory budget window granted depth)
      (Answers (y.LoopFound memory budget window granted depth)) :=
    finds_loop? (fun _ _ _ he => Machine.overhead_eq_error he) _ _ _ _
  cases hrun : (y.loop? memory budget window granted depth).run s with
  | ok found t =>
    cases found with
    | some l => exact .inl ⟨l, t, rfl⟩
    | none =>
      obtain ⟨width, name, rest, o, n, picked, hsingle⟩ := h
      obtain ⟨l, hl⟩ := hsingle.loopFound hrows hwords hmax memory depth
      exact absurd hl ((hfinds.of_ok hs hrun).2.complete rfl l)
  | error e t => exact .inr ⟨e, t, rfl, (hfinds.of_error hs hrun).2⟩

set_option maxRecDepth 100000 in
/-- Twelve iterations of a body of eleven cycles, counted by one register. -/
theorem single_loop_found_twelve :
    I8085.synthesizer.SingleLoop 5 ⟨305, 307⟩ (ResourceSet.ofResources [.register "B"]) .narrow .b ∅
      ⟨7, 14⟩ 12 [⟨"NOP", 4, 1, ∅, true⟩, ⟨"CPI 8b", 7, 2, ∅, true⟩] ∧
    ((∃ l t, (I8085.synthesizer.loop? [] 5 ⟨305, 307⟩
        (ResourceSet.ofResources [.register "B"]) 0).run {} = .ok (some l) t) ∨
      ∃ e t, (I8085.synthesizer.loop? [] 5 ⟨305, 307⟩
          (ResourceSet.ofResources [.register "B"]) 0).run {} = .error e t ∧
        e.EndsSearch 2000000 (fun e => ∃ template, e = .notFound template ∧
          ∀ row ∈ I8085.machine.catalog.rows, row.template ≠ template) t) := by
  have hsingle : I8085.synthesizer.SingleLoop 5 ⟨305, 307⟩ (ResourceSet.ofResources [.register "B"])
      .narrow .b ∅ ⟨7, 14⟩ 12 [⟨"NOP", 4, 1, ∅, true⟩, ⟨"CPI 8b", 7, 2, ∅, true⟩] :=
    { counter := by decide +kernel
      overhead := by decide +kernel
      two_le := by decide
      le_max := by decide +kernel
      admissible := by decide +kernel
      room := by decide
      window_min := by decide
      window_max := by decide }
  exact ⟨hsingle, single_loop_found I8085.synthesizer [] 5 ⟨305, 307⟩ _ 0 I8085.duration_bounds
    I8085.maxIterations_lt (by decide) Session.faithful_empty ⟨_, _, _, _, _, _, hsingle⟩⟩

end Synthesizer

end DelaySynth
