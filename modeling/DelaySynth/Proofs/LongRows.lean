import DelaySynth.Catalog.Table
import DelaySynth.Proofs.Timing

/-!
# Rows longer than half a word

A catalog may list a row whose duration lies in the upper half of the words of 64 bits. Taking it off a
window and checking it against the window both read it as a negative number, so the two mistakes cancel
out and a routine that is far too long passes the check.

* `duration_of_build`: a routine that is built lies in the window exactly if its duration is in the
  lower half. Only a return, a frame or the control of a loop in the upper half can take it out.
* `build_beyond_max`: a written catalog and a request for which that happens.
-/

namespace DelaySynth.Synthesizer

/-- What the check of a built routine says about its duration, read as the number that it is. -/
theorem duration_of_build (y : Synthesizer) (test : SpillTest) (r : Request) {routine : Routine Code}
    {stats : Stats} (hmax : 2 * r.max < bound64) (hword : routine.duration < bound64)
    (hbuild : y.buildWith test r = .ok (some routine, stats)) :
    (routine.SignedParts → r.min ≤ routine.duration ∧ routine.duration ≤ r.max) ∧
    (0 ≤ r.min → r.min ≤ routine.duration ∧ routine.duration ≤ r.max) ∧
    (r.min ≤ routine.duration ∧ routine.duration ≤ r.max ↔ 2 * routine.duration < bound64) ∧
    (bound64 ≤ 2 * routine.duration →
      r.min ≤ routine.duration - bound64 ∧ (routine.duration : Int) - bound64 < 0) := by
  obtain ⟨-, s, -, ⟨-, hcontains⟩ | ⟨⟨⟩, -⟩⟩ := run_of_buildWith hbuild
  obtain ⟨f, hfound⟩ := routineFound_of_build hbuild
  have hchecked : 2 * routine.duration < bound64 ∧ r.min ≤ routine.duration ∧
        routine.duration ≤ r.max ∨
      bound64 ≤ 2 * routine.duration ∧ r.min ≤ routine.duration - bound64 ∧
        routine.duration - bound64 ≤ r.max :=
    (Window.contains_iff_of_lt hword).mp (hcontains routine rfl)
  exact ⟨fun hparts => hfound.bounds_of_signedParts hparts, by omega, by omega, by omega⟩

end DelaySynth.Synthesizer

namespace DelaySynth.I8085

/-- A written catalog whose return lasts five cycles less than the words of 64 bits can tell apart. -/
def textWithLongReturn : String :=
  "BEGIN\nNOP;4;1;-;0;0;+\nMVI B,8b;7;2;B;0;0;+\nDCR B;4;1;B;0;0;-\nJNZ 16b;10;3;-;0;0;-\n" ++
    "RET;18446744073709551611;1;-;0;0;-\nEND\n"

/-- The rows of that catalog. -/
def catalogWithLongReturn : Catalog where
  rows := [⟨"NOP", 4, 1, ∅, true⟩, ⟨"MVI B,8b", 7, 2, regs [.b], true⟩,
    ⟨"DCR B", 4, 1, regs [.b], false⟩, ⟨"JNZ 16b", 10, 3, ∅, false⟩,
    ⟨"RET", 18446744073709551611, 1, ∅, false⟩]

/-- A synthesizer for the Intel 8085 with that catalog. -/
def synthesizerWithLongReturn : Synthesizer where
  machine := ⟨catalogWithLongReturn, target⟩

/-- A request for at most a hundred cycles. -/
def requestUpToHundred : Request where
  min := -10
  max := 100
  resources := []
  budget := 5

/-- The routine consists of nothing but its return, which lasts that long. -/
def isLongReturn (routine : Routine Code) : Bool :=
  routine.main.length = 0 ∧ routine.save.length + routine.restore.length = 0 ∧
    routine.duration = 18446744073709551611

set_option maxRecDepth 100000 in
theorem exists_build_longReturn : ∃ routine stats,
    synthesizerWithLongReturn.build requestUpToHundred = .ok (some routine, stats) ∧
      isLongReturn routine = true := by
  refine Synthesizer.exists_of_any_built? ?_
  decide +kernel

set_option maxRecDepth 100000 in
/-- The catalog is read without complaint, a request for at most a hundred cycles is answered with a
routine, and it lasts almost all the cycles that a word can tell. Nothing overflows, for there is no
other duration to add to that of the return. -/
theorem build_beyond_max : Catalog.ofText textWithLongReturn = .ok catalogWithLongReturn ∧
    ∃ routine stats,
      synthesizerWithLongReturn.build requestUpToHundred = .ok (some routine, stats) ∧
      routine.main.length = 0 ∧ routine.save.length + routine.restore.length = 0 ∧
      routine.duration < bound64 ∧
      ¬(requestUpToHundred.min ≤ routine.duration ∧ routine.duration ≤ requestUpToHundred.max) := by
  refine ⟨by decide +kernel, ?_⟩
  obtain ⟨routine, stats, hbuild, hroutine⟩ := exists_build_longReturn
  obtain ⟨hmain, hframe, hduration⟩ := of_decide_eq_true hroutine
  refine ⟨routine, stats, hbuild, hmain, hframe, by rw [hduration]; decide, fun h => ?_⟩
  have hle : (routine.duration : Int) ≤ 100 := h.2
  omega

/-- What the check says about that routine. -/
theorem duration_of_build_longReturn : ∃ routine stats,
    2 * requestUpToHundred.max < bound64 ∧ routine.duration < bound64 ∧
    synthesizerWithLongReturn.build requestUpToHundred = .ok (some routine, stats) ∧
    requestUpToHundred.min ≤ routine.duration - bound64 ∧ ¬routine.SignedParts := by
  obtain ⟨routine, stats, hbuild, hroutine⟩ := exists_build_longReturn
  obtain ⟨-, -, hduration⟩ := of_decide_eq_true hroutine
  have hword : routine.duration < bound64 := by rw [hduration]; decide
  have hhalf : bound64 ≤ 2 * routine.duration := by rw [hduration]; decide
  obtain ⟨hshort, -, hiff, hlong⟩ := Synthesizer.duration_of_build _ _ _ (by decide) hword hbuild
  refine ⟨routine, stats, by decide, hword, hbuild, (hlong hhalf).1, fun hparts => ?_⟩
  exact Nat.not_lt_of_le hhalf (hiff.mp (hshort hparts))

end DelaySynth.I8085
