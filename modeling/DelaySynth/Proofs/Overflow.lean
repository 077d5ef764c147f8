import DelaySynth.Proofs.Checked.Build
import DelaySynth.Proofs.Rows
import DelaySynth.Proofs.Spill.Sign
import DelaySynth.Proofs.Target.I8085

/-!
# Which builds stay within their words

For the Intel 8085 a build with checks is compared to the one without them, for any tunable values and
any request whose window is in order.

* `build_within_words`: there is exactly one way out of range. A return is asked for, and the window
  begins less than ten cycles above the lowest word with a sign.
* `build_out_of_range`: such a request, for at most a hundred cycles.
-/

namespace DelaySynth.I8085

/-- A synthesizer for the Intel 8085 with some tunable values. -/
def tuned (config : Config) : Synthesizer := { machine, config }

set_option maxRecDepth 100000 in
/-- The table lists a filler that needs nothing. -/
theorem available_ne_nil (granted : ResourceSet) : machine.catalog.available granted ≠ [] := by
  have hnone : 4 ∈ (machine.catalog.available ∅).map Row.duration := by
    decide +kernel
  have hsub : ∅ ⊆ granted := by
    refine ResourceSet.subset_iff.mpr fun i hi => ?_
    rw [ResourceSet.getLsbD_empty] at hi
    cases hi
  obtain ⟨row, hrow, -⟩ := List.mem_map.mp (Catalog.durations_available_mono hsub hnone)
  exact List.ne_nil_of_mem hrow

theorem restrained_spillTest (config : Config) : Checked.Restrained (tuned config).spillTest := by
  intro windowMin granted hlow hmin hasked
  cases spillTest_of_le (available_ne_nil granted) hlow hmin hasked

set_option maxRecDepth 100000 in
theorem exists_ret : ∃ i, machine.ret = .ok i ∧ i.duration = 10 := by
  have hret : (machine.ret.toOption.map Instruction.duration) = some 10 := by
    decide +kernel
  cases h : machine.ret with
  | error e =>
    rw [h] at hret
    cases hret
  | ok i =>
    rw [h] at hret
    exact ⟨i, rfl, Option.some.inj hret⟩

theorem returnCycles_eq (r : Request) :
    Checked.returnCycles machine r = if r.includeReturn = true then 10 else 0 := by
  obtain ⟨i, hret, hduration⟩ := exists_ret
  unfold Checked.returnCycles
  rw [hret, ← hduration]
  rfl

/-- A build leaves its words only where the return cannot be taken off the lower end of the window.
Any other build answers what it does without the checks. -/
theorem build_within_words (config : Config) (r : Request) (hlimit : 2 * config.stepLimit < bound64)
    (hwindow : r.min ≤ r.max) (hnonneg : 0 ≤ r.max) (hmin : -(bound64 : Int) ≤ 2 * r.min)
    (hmax : 2 * r.max < bound64) :
    Checked.build (tuned config) r =
      if r.includeReturn = true ∧ 2 * (r.min - 10) < -(bound64 : Int) then none
      else some ((tuned config).build r) := by
  obtain ⟨i, hret, hduration⟩ := exists_ret
  split
  · rename_i hout
    exact Checked.buildWith_eq_none hret hout.1 (by rw [hduration]; decide) (by omega)
      (by rw [hduration]; exact hout.2)
  · rename_i hroom
    refine Checked.buildWith_eq duration_lt hlimit (restrained_spillTest config) hmax ?_
    show -(bound64 : Int) ≤ 2 * (r.min - Checked.returnCycles machine r)
    rw [returnCycles_eq]
    split
    · rename_i hincluded
      have hle : ¬2 * (r.min - 10) < -(bound64 : Int) := fun hlt => hroom ⟨hincluded, hlt⟩
      exact Int.not_lt.mp hle
    · simpa using hmin

/-- A request for at most a hundred cycles, with a lower end among the words with a sign. -/
def requestFrom (min : Int) : Request where
  min := min
  max := 100
  resources := []
  budget := 10

set_option maxRecDepth 100000 in
/-- The lowest lower end that there is leaves no room for the return. Nothing is answered then, although
the return alone would do. -/
theorem build_out_of_range : ({} : Config).stepLimit < 2 ^ 62 ∧
    (requestFrom (-0x8000000000000000)).min ≤ (requestFrom (-0x8000000000000000)).max ∧
    0 ≤ (requestFrom (-0x8000000000000000)).max ∧
    -(bound64 : Int) ≤ 2 * (requestFrom (-0x8000000000000000)).min ∧
    2 * (requestFrom (-0x8000000000000000)).max < bound64 ∧
    (requestFrom (-0x8000000000000000)).budget < bound32 ∧
    Checked.build (tuned {}) (requestFrom (-0x8000000000000000)) = none ∧
    ∃ stats, (tuned {}).build (requestFrom (-0x8000000000000000)) = .ok (none, stats) := by
  obtain ⟨i, hret, hduration⟩ := exists_ret
  have hends : Synthesizer.endsWithin 0
      ((tuned {}).build (requestFrom (-0x8000000000000000))) = true := by
    decide +kernel
  obtain ⟨stats, hbuild, -⟩ := Synthesizer.exists_of_endsWithin hends
  have hnone : Checked.build (tuned {}) (requestFrom (-0x8000000000000000)) = none :=
    Checked.buildWith_eq_none hret rfl (by rw [hduration]; decide) (by decide)
      (by rw [hduration]; decide)
  exact ⟨by decide, by decide, by decide, by decide, by decide, by decide, hnone, stats, hbuild⟩

set_option maxRecDepth 100000 in
/-- Ten cycles above it the return fits, and nothing is out of range. -/
theorem build_within_words_least :
    2 * ({} : Config).stepLimit < bound64 ∧ ∃ routine stats,
      Checked.build (tuned {}) (requestFrom (-0x8000000000000000 + 10)) =
        some (.ok (some routine, stats)) ∧
      routine.main.length = 0 ∧ routine.duration = 10 := by
  have hbuilt : (Synthesizer.built? <|
      (tuned {}).build (requestFrom (-0x8000000000000000 + 10))).any
      (fun routine => decide (routine.main.length = 0 ∧ routine.duration = 10)) = true := by
    decide +kernel
  obtain ⟨routine, stats, hbuild, hroutine⟩ := Synthesizer.exists_of_any_built? hbuilt
  have hlimit : 2 * ({} : Config).stepLimit < bound64 := by decide
  have hwords := build_within_words {} (requestFrom (-0x8000000000000000 + 10)) hlimit (by decide)
    (by decide) (by decide) (by decide)
  rw [if_neg (by decide), hbuild] at hwords
  exact ⟨hlimit, routine, stats, hwords, of_decide_eq_true hroutine⟩

end DelaySynth.I8085
