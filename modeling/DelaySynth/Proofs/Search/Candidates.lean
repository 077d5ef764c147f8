import DelaySynth.Proofs.Window
import DelaySynth.Search.LoopSearch
import DelaySynth.Target.I8085

/-!
# Iteration counts and their bodies

A loop spends its window on `n` iterations, each of which costs its control instructions besides the
body. The window that is left for the body comes from two divisions by `n`, of which one is rounded up
and the other down, and the counts that are tried end where the control instructions alone are too long.
None of this loses a body or lets one through that does not fit.

* `Fits`: all iterations of a body lie in the window.
* `le_maxIterations`, `of_le_maxIterations`: which counts are tried.
* `body_window_exact`: the window for a body holds the bodies that fit, every count with such a body is
  tried, and the counts that are passed over have none.
-/

namespace DelaySynth.LoopGoal

variable {g g' : LoopGoal} {t : Target} {n : Nat} {b : Int}

/-! ## Counts -/

/-- Where an iteration costs something and the window does not end below zero, nothing wraps in the
largest count. -/
theorem maxIterations_eq (hcost : 0 < g.perIteration) (hnonneg : 0 ≤ g.window.max) :
    g.maxIterations t = min (t.maxIterations g.width)
      (min (g.window.max / g.perIteration).toNat (bound32 - 1)) := by
  have hquotient : 0 ≤ g.window.max / g.perIteration := Int.ediv_nonneg hnonneg (Int.le_of_lt hcost)
  have hword : 0 < bound32 := by decide
  have hcut : min (g.window.max / g.perIteration) (bound32 - 1 : Nat) % bound32 =
      min (g.window.max / g.perIteration) (bound32 - 1 : Nat) :=
    Int.emod_eq_of_lt (by omega) (by omega)
  unfold maxIterations
  rw [Int.tdiv_eq_ediv_of_nonneg hnonneg]
  simp only [hcut]
  omega

/-- A number of iterations is tried if the counter can hold it and the window has room for what all
iterations cost besides their bodies. -/
theorem le_maxIterations (hword : n < bound32) (hcounter : n ≤ t.maxIterations g.width)
    (hcost : 0 < g.perIteration) (hroom : n * g.perIteration ≤ g.window.max) :
    n ≤ g.maxIterations t := by
  have hnonneg : 0 ≤ g.window.max :=
    Int.le_trans (Int.mul_nonneg (Int.natCast_nonneg n) (Int.le_of_lt hcost)) hroom
  have hquotient : (n : Int) ≤ g.window.max / g.perIteration :=
    (Int.le_ediv_iff_mul_le hcost).mpr hroom
  rw [maxIterations_eq hcost hnonneg]
  omega

/-- Every number that is tried fits the counter and the window. -/
theorem of_le_maxIterations (hcost : 0 < g.perIteration) (hnonneg : 0 ≤ g.window.max)
    (h : n ≤ g.maxIterations t) :
    n < bound32 ∧ n ≤ t.maxIterations g.width ∧ n * g.perIteration ≤ g.window.max := by
  have hquotient : 0 ≤ g.window.max / g.perIteration := Int.ediv_nonneg hnonneg (Int.le_of_lt hcost)
  have hword : 0 < bound32 := by decide
  rw [maxIterations_eq hcost hnonneg] at h
  exact ⟨by omega, by omega, (Int.le_ediv_iff_mul_le hcost).mp (by omega)⟩

/-- Where the window has more room, no fewer iterations are tried. -/
theorem maxIterations_mono (hwidth : g.width = g'.width) (hper : g.perIteration = g'.perIteration)
    (hcost : 0 < g.perIteration) (hnonneg : 0 ≤ g.window.max)
    (hroom : g.window.max ≤ g'.window.max) : g.maxIterations t ≤ g'.maxIterations t := by
  obtain ⟨hword, hcounter, hfits⟩ := of_le_maxIterations hcost hnonneg (Nat.le_refl _)
  rw [hwidth] at hcounter
  rw [hper] at hcost hfits
  exact le_maxIterations hword hcounter hcost (Int.le_trans hfits hroom)

/-! ## Bodies -/

/-- All iterations of a body of `b` cycles, with what each of them costs besides, last as long as the
window asks for. -/
def Fits (g : LoopGoal) (n : Nat) (b : Int) : Prop :=
  g.window.min ≤ n * (b + g.perIteration) ∧ n * (b + g.perIteration) ≤ g.window.max

instance (g : LoopGoal) (n : Nat) (b : Int) : Decidable (g.Fits n b) :=
  inferInstanceAs (Decidable (_ ∧ _))

theorem mem_body_iff (hn : 0 < n) :
    (g.window.body n g.perIteration).min ≤ b ∧ b ≤ (g.window.body n g.perIteration).max ↔
      g.Fits n b := by
  rw [Window.body_min_le_iff hn, Window.le_body_max_iff hn, Fits]

/-- The iterations have room for their control instructions. -/
theorem Fits.mul_perIteration_le (h : g.Fits n b) (hb : 0 ≤ b) :
    n * g.perIteration ≤ g.window.max := by
  have hle : g.perIteration ≤ b + g.perIteration := by omega
  exact Int.le_trans (Int.mul_le_mul_of_nonneg_left hle (Int.natCast_nonneg n)) h.2

/-- The window for the body of `n` iterations holds exactly the bodies of which all iterations fit the
window of the loop. If there is such a body, then the count is at most the quotient of the window and the
cost of an iteration, and it is tried if the counter can hold it. The count is passed over exactly if
there is none. -/
theorem body_window_exact (g : LoopGoal) (t : Target) {n : Nat} (hn : 0 < n) :
    (∀ b : Int, (g.window.body n g.perIteration).min ≤ b ∧
      b ≤ (g.window.body n g.perIteration).max ↔ g.Fits n b) ∧
    (0 < g.perIteration → (∃ b, 0 ≤ b ∧ g.Fits n b) → n ≤ g.window.max / g.perIteration ∧
      (n < bound32 → n ≤ t.maxIterations g.width → n ≤ g.maxIterations t)) ∧
    ((g.window.body n g.perIteration).Hopeless ↔ ¬∃ b, 0 ≤ b ∧ g.Fits n b) := by
  refine ⟨fun b => mem_body_iff hn, fun hcost ⟨b, hb, hfits⟩ => ?_, ?_⟩
  · have hroom := hfits.mul_perIteration_le hb
    exact ⟨(Int.le_ediv_iff_mul_le hcost).mpr hroom, fun hword hcounter =>
      le_maxIterations hword hcounter hcost hroom⟩
  · rw [Window.hopeless_iff]
    simp only [mem_body_iff hn]

/-- From seven cycles below zero up to a hundred there is room for seven iterations of fourteen cycles,
the body of which is empty, and eight are too many. -/
theorem body_window_exact_hundred : ∃ g : LoopGoal, g.window = ⟨-7, 100⟩ ∧ 0 < 7 ∧ 0 < 8 ∧
    (∀ b, 0 ≤ b → (g.Fits 7 b ↔ b = 0)) ∧ 7 ≤ g.maxIterations I8085.target ∧
    ¬∃ b, 0 ≤ b ∧ g.Fits 8 b := by
  let g : LoopGoal :=
    { width := .wide, counter := Register.b, perIteration := 14, window := ⟨-7, 100⟩
      bodyKey := { budget := 0, granted := ∅, memory := [] }, depth := 0 }
  obtain ⟨hexact, htried, -⟩ := body_window_exact g I8085.target (show 0 < 7 by decide)
  obtain ⟨-, -, hpassed⟩ := body_window_exact g I8085.target (show 0 < 8 by decide)
  have hseven : g.window.body 7 g.perIteration = ⟨-15, 0⟩ := by decide
  refine ⟨g, rfl, by decide, by decide, fun b hb => ?_, ?_, hpassed.mp (by decide)⟩
  · rw [← hexact b, hseven]
    simp only
    omega
  · exact (htried (by decide) ⟨0, by decide, by decide⟩).2 (by decide) (by decide)

end DelaySynth.LoopGoal
