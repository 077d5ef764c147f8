import DelaySynth.Window
import Mathlib.Data.Int.ModEq

/-!
# Arithmetic of windows

What a window becomes when cycles are spent, and what the window for a loop body admits, in exact
integers. Words of 64 bits hold every count that is below half of their range.

* `le_minus`, `minus_le`: taking cycles off the window and adding them to a duration are the same.
* `body_min_le_iff`, `le_body_max_iff`: a body fits its window exactly if all iterations fit the window of
  the loop; `le_body` and `body_le` say so of counts.
* `subset_iff`, `body_min_le`, `le_body_max`: a wider window leaves a wider one for the body.
* `Admits`: a duration of any size fits a window but for a multiple of the size of a word. That is put
  back together in the same way, and it is all that the last check of a build asks for
  (`contains_of_admits`).
-/

namespace DelaySynth

/-- Sums of a thousand words of 32 bits stay in the lower half of 64 bits. -/
theorem bound32_lt_bound64 : 2048 * bound32 < bound64 := by decide

namespace Window

variable {w : Window} {cycles duration n : Nat}

theorem contains_iff (h : 2 * duration < bound64) :
    w.Contains duration ↔ w.min ≤ duration ∧ duration ≤ w.max := by
  unfold Contains
  rw [signedCycles_of_lt h]

/-- A count in the upper half of the words stands for the negative number that is one range below. -/
theorem signedCycles_of_le (h : bound64 ≤ 2 * cycles) (hword : cycles < bound64) :
    signedCycles cycles = cycles - bound64 := by
  unfold signedCycles
  rw [← Int.sub_bmod_right]
  apply Int.bmod_eq_of_le <;> omega

/-- Which durations that a word can tell pass the check of a window. -/
theorem contains_iff_of_lt (hword : duration < bound64) :
    w.Contains duration ↔
      2 * duration < bound64 ∧ w.min ≤ duration ∧ duration ≤ w.max ∨
      bound64 ≤ 2 * duration ∧ w.min ≤ duration - bound64 ∧ duration - bound64 ≤ w.max := by
  by_cases h : 2 * duration < bound64
  · rw [contains_iff h]
    omega
  · rw [Contains, signedCycles_of_le (by omega) hword]
    omega

/-! ## Spent cycles -/

theorem minus_of_lt (h : 2 * cycles < bound64) :
    w.minus cycles = ⟨w.min - cycles, w.max - cycles⟩ := by
  rw [minus, signedCycles_of_lt h]

@[simp] theorem minus_zero (w : Window) : w.minus 0 = w := by
  rw [minus_of_lt (by decide)]
  ext <;> simp

theorem le_minus (h : 2 * cycles < bound64) :
    (w.minus cycles).min ≤ duration ↔ w.min ≤ (cycles + duration : Nat) := by
  rw [minus_of_lt h]
  show w.min - (cycles : Int) ≤ duration ↔ _
  omega

theorem minus_le (h : 2 * cycles < bound64) :
    duration ≤ (w.minus cycles).max ↔ (cycles + duration : Nat) ≤ w.max := by
  rw [minus_of_lt h]
  show duration ≤ w.max - (cycles : Int) ↔ _
  omega

/-! ## Loop bodies -/

/-- The lower end is rounded up, so nothing is below it that all iterations fit. -/
theorem body_min_le_iff (hn : 0 < n) {perIteration b : Int} :
    (w.body n perIteration).min ≤ b ↔ w.min ≤ n * (b + perIteration) := by
  have hn' : (0 : Int) < n := by omega
  have hup : -(b + perIteration) ≤ -w.min / n ↔ -(b + perIteration) * n ≤ -w.min :=
    Int.le_ediv_iff_mul_le hn'
  rw [Int.neg_mul, Int.mul_comm] at hup
  show -(-w.min / n) - perIteration ≤ b ↔ _
  omega

/-- The upper end is rounded down, so nothing is above it that all iterations fit. -/
theorem le_body_max_iff (hn : 0 < n) {perIteration b : Int} :
    b ≤ (w.body n perIteration).max ↔ n * (b + perIteration) ≤ w.max := by
  have hn' : (0 : Int) < n := by omega
  have hdown : b + perIteration ≤ w.max / n ↔ (b + perIteration) * n ≤ w.max :=
    Int.le_ediv_iff_mul_le hn'
  rw [Int.mul_comm] at hdown
  show b ≤ w.max / n - perIteration ↔ _
  omega

theorem le_body (hn : 0 < n) (h : 2 * cycles < bound64) :
    (w.body n (signedCycles cycles)).min ≤ duration ↔
      w.min ≤ (n * (duration + cycles) : Nat) := by
  rw [body_min_le_iff hn, signedCycles_of_lt h]
  push_cast
  rfl

theorem body_le (hn : 0 < n) (h : 2 * cycles < bound64) :
    duration ≤ (w.body n (signedCycles cycles)).max ↔
      (n * (duration + cycles) : Nat) ≤ w.max := by
  rw [le_body_max_iff hn, signedCycles_of_lt h]
  push_cast
  rfl

/-- A window is hopeless exactly if no duration lies in it. -/
theorem hopeless_iff : w.Hopeless ↔ ¬∃ b : Int, 0 ≤ b ∧ w.min ≤ b ∧ b ≤ w.max := by
  unfold Hopeless
  constructor
  · rintro hhopeless ⟨b, hb, hmin, hmax⟩
    omega
  · intro hnone
    by_contra hhopeful
    -- The lower end lies in the window, or zero if that is above it.
    rcases Int.le_total 0 w.min with hmin | hmin
    · exact hnone ⟨w.min, hmin, Int.le_refl _, by omega⟩
    · exact hnone ⟨0, Int.le_refl _, hmin, by omega⟩

/-! ## Windows inside each other -/

/-- A window lies inside another one if all its numbers of cycles do. -/
instance : HasSubset Window where
  Subset w w' := ∀ d : Int, w.min ≤ d → d ≤ w.max → w'.min ≤ d ∧ d ≤ w'.max

theorem subset_iff {w' : Window} (h : w.min ≤ w.max) :
    w ⊆ w' ↔ w'.min ≤ w.min ∧ w.max ≤ w'.max := by
  constructor
  · intro hsub
    exact ⟨(hsub w.min (Int.le_refl _) h).1, (hsub w.max h (Int.le_refl _)).2⟩
  · rintro ⟨hmin, hmax⟩ d hlow hhigh
    omega

theorem body_min_le {w' : Window} (hn : 0 < n) (perIteration : Int) (h : w'.min ≤ w.min) :
    (w'.body n perIteration).min ≤ (w.body n perIteration).min := by
  have hn' : (0 : Int) < n := by omega
  have hquotient : -w.min / n ≤ -w'.min / n := by
    apply Int.ediv_le_ediv hn'
    omega
  show -(-w'.min / n) - perIteration ≤ -(-w.min / n) - perIteration
  omega

theorem le_body_max {w' : Window} (hn : 0 < n) (perIteration : Int) (h : w.max ≤ w'.max) :
    (w.body n perIteration).max ≤ (w'.body n perIteration).max := by
  have hn' : (0 : Int) < n := by omega
  have hquotient : w.max / n ≤ w'.max / n := Int.ediv_le_ediv hn' h
  show w.max / n - perIteration ≤ w'.max / n - perIteration
  omega

/-! ## Durations of any size -/

/-- The duration lies in the window, but for a multiple of the size of a word. -/
def Admits (w : Window) (duration : Nat) : Prop :=
  ∃ v : Int, v ≡ duration [ZMOD bound64] ∧ w.min ≤ v ∧ v ≤ w.max

theorem signedCycles_modEq (cycles : Nat) : signedCycles cycles ≡ cycles [ZMOD bound64] :=
  Int.bmod_emod

theorem admits_of_le (hmin : w.min ≤ duration) (hmax : duration ≤ w.max) : w.Admits duration :=
  ⟨duration, rfl, hmin, hmax⟩

theorem Admits.of_minus (h : (w.minus cycles).Admits duration) : w.Admits (cycles + duration) := by
  obtain ⟨v, hv, hmin, hmax⟩ := h
  refine ⟨signedCycles cycles + v, ?_, by simp only [minus] at hmin; omega,
    by simp only [minus] at hmax; omega⟩
  push_cast
  exact (signedCycles_modEq cycles).add hv

theorem Admits.of_body (hn : 0 < n) (h : (w.body n (signedCycles cycles)).Admits duration) :
    w.Admits (n * (duration + cycles)) := by
  obtain ⟨v, hv, hmin, hmax⟩ := h
  refine ⟨n * (v + signedCycles cycles), ?_, (body_min_le_iff hn).mp hmin, (le_body_max_iff hn).mp hmax⟩
  push_cast
  exact (hv.add (signedCycles_modEq cycles)).mul_left n

/-- The check of a duration takes it as a word, so it passes if the ends of the window are words. -/
theorem contains_of_admits (hmin : -(bound64 : Int) ≤ 2 * w.min) (hmax : 2 * w.max < bound64)
    (h : w.Admits duration) : w.Contains duration := by
  obtain ⟨v, hv, hminv, hmaxv⟩ := h
  have hword : signedCycles duration = v := by
    unfold signedCycles
    rw [← Int.emod_bmod, ← hv, Int.emod_bmod]
    apply Int.bmod_eq_of_le <;> omega
  unfold Contains
  rw [hword]
  exact ⟨hminv, hmaxv⟩

end Window

end DelaySynth
