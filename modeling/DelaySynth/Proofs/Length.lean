import DelaySynth.Proofs.Search.Nest
import DelaySynth.Proofs.Tally

/-!
# Lengths of routines

The return and the code that saves and restores registers are taken out of the budget, and what is left
of it bounds the main part. They may take more than the budget has, and nothing is left then. In each
attempt after the first one the main part may hold one more instruction.

* `MainFound.length_le`: a main part holds at most as many instructions as its budget admits.
* `length_within_budget`: what this means for a whole routine.
-/

namespace DelaySynth.Synthesizer

variable {y : Synthesizer} {memory : List String} {budget : Nat} {window : Window}
  {granted : ResourceSet} {main : Code}

theorem MainFound.length_le (h : y.MainFound memory budget window granted main) :
    main.length ≤ budget := by
  cases h with
  | flat nonneg within found =>
    obtain ⟨items, rfl, hlength⟩ := Reach.length_lookupWindow_le found
    rw [Code.length_group, Group.length_instructions]
    exact hlength
  | loop nonneg found =>
    rw [Code.length_loop]
    exact found.length_le

/-- A routine holds at most as many instructions as the budget admits, or as its return and the code
that saves and restores registers take, and one more for each repeated search. So without a repeated
search, and with a budget for the return and that code, it stays within the budget. -/
theorem length_within_budget (y : Synthesizer) (test : SpillTest) (r : Request)
    {routine : Routine Code} {stats : Stats} (h : y.buildWith test r = .ok (some routine, stats)) :
    routine.length ≤
      max r.budget (routine.save.length + routine.restore.length + routine.ret?.toList.length) +
        stats.budgetRetries ∧
    stats.budgetRetries ≤ y.config.budgetRetries ∧
    (stats.budgetRetries = 0 →
      routine.save.length + routine.restore.length + routine.ret?.toList.length ≤ r.budget →
        routine.length ≤ r.budget) := by
  obtain ⟨f, hfound, hretries, hmain⟩ := mainFor_of_build h
  have hsum : routine.length = routine.save.length + routine.main.length + routine.restore.length +
      routine.ret?.toList.length := by
    rw [Routine.length]
  have hlength : routine.main.length ≤ r.budget - routine.ret?.toList.length -
      (routine.save.length + routine.restore.length) + stats.budgetRetries := by
    rw [hfound.save, hfound.restore]
    exact Nat.le_trans hmain.length_le (Nat.min_le_left _ _)
  have hbound : routine.length ≤
      max r.budget (routine.save.length + routine.restore.length + routine.ret?.toList.length) +
        stats.budgetRetries := by
    omega
  exact ⟨hbound, hretries, fun hfirst hcovered => by omega⟩

set_option maxRecDepth 100000 in
/-- With a budget of one instruction, the return, saving a register and restoring it take three, and
after some repeated searches four more make the main part. -/
theorem length_within_budget_overdrawn : ∃ routine stats,
    I8085.synthesizer.build
      { min := 3000, max := 3010, resources := [.memory "2000H"], budget := 1 } =
        .ok (some routine, stats) ∧ routine.length = 7 ∧
    routine.length ≤
      max 1 (routine.save.length + routine.restore.length + routine.ret?.toList.length) +
        stats.budgetRetries := by
  have hbuilt : (built? (I8085.synthesizer.build
      { min := 3000, max := 3010, resources := [.memory "2000H"], budget := 1 })).any
        (fun routine => routine.length = 7) = true := by
    decide +kernel
  obtain ⟨routine, stats, h, hlength⟩ := exists_of_any_built? hbuilt
  exact ⟨routine, stats, h, of_decide_eq_true hlength, (length_within_budget _ _ _ h).1⟩

end DelaySynth.Synthesizer
