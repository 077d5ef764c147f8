import DelaySynth.Proofs.StraightLine
import DelaySynth.Proofs.Tally

/-!
# Flat code comes first

The table is asked before any loop is sought, and it knows every sequence that the budget admits. So a
main part is a loop only if no sequence of rows fits the window that is left for it. Otherwise it is the
shortest one that fits, with the fewest instructions among those that last as long. This holds for the
budget of the attempt that was successful, which the statistics tell.

* `FlatFirst`: the main part that a window, a budget and some rows call for.
* `MainChosen.flatFirst`: the main part that is chosen is of this kind.
* `flat_first`: so is the main part of every routine that is built.
-/

namespace DelaySynth

/-- The main part is the group of the best rows if any rows fit the window, and otherwise a loop. -/
structure FlatFirst (rows : List Row) (n : Nat) (w : Window) (memory : List String) (main : Code) :
    Prop where
  flat : (∃ picked, Row.Fits rows n w picked) → ∃ picked, Row.Optimal rows n w picked ∧
    main = .group (Row.fillerGroup memory picked) ∧
      main.duration = (picked.map Row.duration).sum ∧ main.length = picked.length
  loop : (¬∃ picked, Row.Fits rows n w picked) → ∃ l, main = .loop l

namespace Synthesizer

variable {y : Synthesizer} {test : SpillTest} {r : Request} {memory : List String} {budget : Nat}
  {window : Window} {granted : ResourceSet} {main : Code} {f : Frame} {routine : Routine Code}

/-! ## Main parts -/

/-- A flat main part is made of the best of all rows that the grant admits, not only of those that are
kept. -/
theorem MainFound.optimal (hmax : 2 * window.max < bound64) {g : Group Code}
    (h : y.MainFound memory budget window granted (.group g)) :
    ∃ picked, Row.Optimal (y.machine.catalog.admissible granted) budget window picked ∧
      g = Row.fillerGroup memory picked := by
  cases h with
  | flat _ _ found =>
    obtain ⟨picked, hpicked, rfl⟩ := Reach.optimal_of_lookupWindow hmax found
    exact ⟨picked, hpicked.of_durations (Catalog.available_sublist _ granted).subset
      fun _ => Catalog.mem_durations_available.mpr, rfl⟩

theorem MainChosen.flatFirst (hmax : 2 * window.max < bound64)
    (h : y.MainChosen memory budget window granted main) :
    FlatFirst (y.machine.catalog.admissible granted) budget window memory main := by
  cases main with
  | group g =>
    obtain ⟨best, hbest, rfl⟩ := h.found.optimal hmax
    refine ⟨fun _ => ⟨best, hbest, rfl, ?_, ?_⟩, fun hnone => absurd ⟨best, hbest.toFits⟩ hnone⟩
    · rw [Code.duration_group, Row.duration_fillerGroup]
    · rw [Code.length_group, Row.length_fillerGroup]
  | loop l =>
    refine ⟨?_, fun _ => ⟨l, rfl⟩⟩
    rintro ⟨picked, hpicked⟩
    obtain ⟨g, hg⟩ := exists_mainFound_of_fits hmax hpicked
    exact absurd hg (h.loop_last l rfl g)
  | instr _ | routine _ => cases h.found

/-! ## Routines -/

/-- The main part of every routine that is built is the best flat sequence for what its return and its
frame leave of the window and the budget, in which each repeated search adds one instruction. It is a
loop only where no sequence of admitted rows is as long as the window asks for. -/
theorem flat_first (hrows : ∀ row ∈ y.machine.catalog.rows, row.duration < bound32)
    (hbudget : r.budget < bound32) (hmax : 2 * r.max < bound64) {stats : Stats}
    (h : y.buildWith test r = .ok (some routine, stats)) :
    ∃ f s, (y.freeRegisters? test (r.innerWindow routine.ret?) (Register.count + 1)
        { resources := r.resources }).run {} = .ok (some f) s ∧
      routine.save = f.save ∧ routine.restore = f.restore ∧
      FlatFirst (y.machine.catalog.admissible (ResourceSet.ofResources f.resources))
        (r.mainBudget routine.ret? f + stats.budgetRetries) (r.mainWindow routine.ret? f)
        (Resource.addresses f.resources) routine.main := by
  obtain ⟨f, hfound, hfirst⟩ := chosen_of_build h
  obtain ⟨s, hframe⟩ := hfound.frame
  have hle : r.mainBudget routine.ret? f + stats.budgetRetries ≤ maxBudget := by
    refine hfirst.le_maxBudget ?_
    simp only [Request.mainBudget, maxBudget]
    omega
  have hchosen := hfirst.found
  rw [Nat.min_eq_left hle,
    Request.mainWindow_eq (hfound.duration_ret_lt hrows) (hfound.duration_frame_lt hrows)] at hchosen
  refine ⟨f, s, hframe, hfound.save, hfound.restore, hchosen.flatFirst ?_⟩
  simp only [Request.mainWindow]
  omega

set_option maxRecDepth 100000 in
/-- With one instruction nothing takes forty cycles. Five searches later six instructions of seven
cycles are found; there are sequences of forty cycles as well, but they take seven instructions. -/
theorem flat_first_retried : ∃ routine stats,
    I8085.synthesizer.build
      { min := 40, max := 43, resources := [], budget := 1, includeReturn := false } =
        .ok (some routine, stats) ∧ stats.budgetRetries = 5 ∧ routine.main.duration = 42 ∧
    ∃ picked, Row.Optimal (I8085.machine.catalog.admissible ∅) 6 ⟨40, 43⟩ picked ∧
      routine.main = .group (Row.fillerGroup [] picked) := by
  have hbuilt : (built? (I8085.synthesizer.build
      { min := 40, max := 43, resources := [], budget := 1, includeReturn := false })).any
        (fun routine => routine.ret?.isNone ∧ routine.main.duration = 42) = true := by
    decide +kernel
  have htold : (I8085.synthesizer.build
      { min := 40, max := 43, resources := [], budget := 1, includeReturn := false }).toOption.map
        (fun answer => answer.2.budgetRetries) = some 5 := by
    decide +kernel
  obtain ⟨routine, stats, h, hroutine⟩ := exists_of_any_built? hbuilt
  obtain ⟨hret, hduration⟩ := of_decide_eq_true hroutine
  have hretries : stats.budgetRetries = 5 := by
    rw [h] at htold
    exact Option.some.inj htold
  obtain ⟨f, s, hframe, -, -, hflat⟩ := flat_first I8085.duration_lt (by decide) (by decide) h
  rw [Option.isNone_iff_eq_none.mp hret] at hframe hflat
  cases (run_freeRegisters?_of_unasked (by decide +kernel) {}).symm.trans hframe
  rw [hretries] at hflat
  have hfits : Row.Fits (I8085.machine.catalog.admissible ∅) 6 ⟨40, 43⟩
      (List.replicate 6 ⟨"CPI 8b", 7, 2, ∅, true⟩) := by
    decide +kernel
  obtain ⟨picked, hpicked, hmain, -⟩ := hflat.flat ⟨_, hfits⟩
  exact ⟨routine, stats, h, hretries, hduration, picked, hpicked, hmain⟩

end Synthesizer

end DelaySynth
