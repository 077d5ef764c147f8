import DelaySynth.Proofs.Checked.Words
import DelaySynth.Proofs.Reach.Lookup

/-!
# Reach tables within words

Filling a table and reading it, with a check of every sum of durations and of every index. A table that
has been charged for within a limit has a place for each duration that its rounds come to, so no index
is out of range.

* `Checked.round_eq`: a round, as long as a layer is left.
* `Checked.lookupWindow_eq`: the answer to a window, where the longest duration fits its word.
-/

namespace DelaySynth.Checked

open Reach

/-! ## Rounds -/

/-- Marks the duration that one more filler leads to. -/
def extend (base : Nat) (s : Sweep) (filler : Instruction) : Option Sweep := do
  let d ← word (base + filler.duration)
  if d < s.marks.size then return s.extend base filler else none

/-- Extends a duration by every filler, if it is reached. -/
def extendAll (fillers : List Instruction) (base : Nat) (s : Sweep) : Option Sweep := do
  if isReached (← s.marks[base]?) then fillers.foldlM (extend base) s else return s

/-- Extends the durations below `n`, the longest first. -/
def down (fillers : List Instruction) : (n : Nat) → Sweep → Option Sweep
  | 0, s => return s
  | n + 1, s => do down fillers n (← extendAll fillers n s)

/-- The table after one more round, and whether the round has marked anything. -/
def round (fillers : List Instruction) (t : Reach) : Option (Reach × Bool) := do
  let s ← down fillers (t.top + 1) ⟨t.marks, t.top, false⟩
  return (⟨t.budget, s.marks, s.top⟩, s.changed)

section Rounds

variable {fillers : List Instruction} {base n : Nat} {s : Sweep}

theorem extend_eq {filler : Instruction} (hsize : s.marks.size ≤ bound64)
    (h : base + filler.duration < s.marks.size) :
    extend base s filler = some (s.extend base filler) := by
  rw [extend, word_eq (by omega)]
  exact if_pos h

theorem foldlM_extend_eq (hsize : s.marks.size ≤ bound64)
    (h : ∀ filler ∈ fillers, base + filler.duration < s.marks.size) :
    fillers.foldlM (extend base) s = some (fillers.foldl (Sweep.extend base) s) ∧
      (fillers.foldl (Sweep.extend base) s).marks.size = s.marks.size := by
  induction fillers generalizing s with
  | nil => exact ⟨rfl, rfl⟩
  | cons filler fillers ih =>
    obtain ⟨hfiller, hrest⟩ := List.forall_mem_cons.mp h
    have hsame := Sweep.size_extend base s filler
    obtain ⟨hfold, hfolded⟩ := ih (hsame.symm ▸ hsize) fun f hf => hsame.symm ▸ hrest f hf
    rw [List.foldlM_cons, extend_eq hsize hfiller]
    exact ⟨hfold, hfolded.trans hsame⟩

theorem extendAll_eq (hsize : s.marks.size ≤ bound64) (hbase : base < s.marks.size)
    (h : ∀ filler ∈ fillers, base + filler.duration < s.marks.size) :
    extendAll fillers base s = some (s.extendAll fillers base) ∧
      (s.extendAll fillers base).marks.size = s.marks.size := by
  obtain ⟨hfold, hfolded⟩ := foldlM_extend_eq hsize h
  rw [extendAll, Array.getElem?_eq_getElem hbase]
  simp only [Option.bind_eq_bind, Option.bind_some, Sweep.extendAll, Array.getD_eq_getD_getElem?,
    Array.getElem?_eq_getElem hbase, Option.getD_some]
  split
  · exact ⟨hfold, hfolded⟩
  · exact ⟨rfl, rfl⟩

/-- The marks have room for the places below `n`, each with one more filler. -/
theorem down_eq (hsize : s.marks.size ≤ bound64) (h : n + longest fillers ≤ s.marks.size) :
    down fillers n s = some (s.down fillers n) := by
  induction n generalizing s with
  | zero => rfl
  | succ n ih =>
    have hroom (filler : Instruction) (hfiller : filler ∈ fillers) :
        n + filler.duration < s.marks.size := by
      have hle := duration_le_longest hfiller
      omega
    obtain ⟨hall, hsame⟩ := extendAll_eq hsize (show n < s.marks.size by omega) hroom
    rw [down, hall]
    exact ih (hsame.symm ▸ hsize) (by omega)

/-- A round from a layer, in a table with room for the next one. -/
theorem round_eq {k : Nat} {t : Reach} (ht : Layer fillers k t)
    (hsize : t.marks.size ≤ bound64)
    (h : (k + 1) * longest fillers < t.marks.size) :
    round fillers t = some (t.round fillers) := by
  have htop := ((ht.reached t.top).mp ht.top).2.le
  rw [Nat.succ_mul] at h
  rw [round, down_eq hsize (by simp only; omega)]
  rfl

end Rounds

/-! ## Answers -/

/-- Follows the marks from a duration down, for at most `fuel` steps. -/
def follow (marks : Array Mark) : (fuel d : Nat) → List Instruction → Option (List Instruction)
  | 0, _, found => return found
  | fuel + 1, d, found => do
    match ← marks[d]? with
    | .step previous last => follow marks fuel previous (last :: found)
    | _ => return found

/-- The sequence for the shortest reached duration in a window. -/
def lookupWindow (t : Reach) (w : Window) : Option (Option (Group Code)) := do
  let low := w.min.toNat
  let high := min w.max (← signed t.top)
  if w.max < low then return none
  else
    match t.firstReached? (high - low + 1).toNat low with
    | some d => return some (.unordered ((← follow t.marks d d []).map Code.instr))
    | none => return none

theorem follow_eq {fillers : List Instruction} {marks : Array Mark} (hmarks : Linked fillers marks)
    (fuel : Nat) {d : Nat} (hd : Reached marks d) (found : List Instruction) :
    follow marks fuel d found = some (Reach.follow marks fuel d found) := by
  induction fuel generalizing d found with
  | zero => rfl
  | succ fuel ih =>
    have hget : marks[d]? = some (marks.getD d .unreached) := by
      rw [Array.getD_eq_getD_getElem?, Array.getElem?_eq_getElem hd.lt_size, Option.getD_some]
    rw [follow, hget, Reach.follow]
    simp only [Option.bind_eq_bind, Option.bind_some]
    cases hmark : marks.getD d .unreached with
    | unreached => rfl
    | origin => rfl
    | step previous last =>
      obtain ⟨-, -, -, hprevious⟩ := hmarks.step d previous last hmark
      exact ih hprevious _

theorem lookupWindow_eq {fillers : List Instruction} {budget : Nat} {w : Window}
    (htop : 2 * (ofFillers fillers budget).top < bound64) :
    lookupWindow (ofFillers fillers budget) w = some ((ofFillers fillers budget).lookupWindow w) := by
  rw [lookupWindow, signed_eq (by omega) (by omega), Reach.lookupWindow]
  simp only [Option.bind_eq_bind, Option.bind_some]
  split
  · rfl
  · split
    · rename_i d hfirst
      have hreached := (firstReached?_eq_some_iff.mp hfirst).2.2.1
      rw [hfirst, follow_eq (linked_ofFillers fillers budget) d hreached, Option.bind_some,
        Option.bind_some, sequence?, if_pos hreached]
      rfl
    · rename_i hfirst
      rw [hfirst]
      rfl

end DelaySynth.Checked
