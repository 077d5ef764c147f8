import DelaySynth.Proofs.Reach.Durations
import DelaySynth.Proofs.Reach.Kept

/-!
# Tables of the search

The tables that a search uses are determined by a budget and a grant. A larger budget leaves no window
unanswered that was answered before. Of the rows that the grant admits only one of each duration is
kept, but its fillers make up all the durations that sequences of admissible rows have.

* `lookupWindow_mono`, `le_top_mono`: more instructions reach further.
* `answered_of_fits`: windows that sequences of admissible rows fit are answered.
-/

namespace DelaySynth

namespace Reach

variable {fillers : List Instruction} {budget budget' : Nat} {w : Window}

/-! ## Larger budgets -/

theorem dominates_of_le (hle : budget ≤ budget') :
    (ofFillers fillers budget').Dominates (ofFillers fillers budget) :=
  dominates_of_durations (List.Subset.refl _) hle

theorem le_top_mono (hle : budget ≤ budget') {low : Int}
    (h : low ≤ (ofFillers fillers budget).top) : low ≤ (ofFillers fillers budget').top :=
  Int.le_trans h (Int.ofNat_le.mpr (dominates_of_le hle).top)

/-- With more instructions no window is left unanswered that was answered before. -/
theorem lookupWindow_mono (hle : budget ≤ budget') {g : Group Code}
    (h : (ofFillers fillers budget).lookupWindow w = some g) :
    ∃ g', (ofFillers fillers budget').lookupWindow w = some g' := by
  obtain ⟨g', hg', -⟩ := (dominates_of_le hle).earlier w g h
  exact ⟨g', hg'⟩

end Reach

/-! ## Admissible rows -/

/-- The fillers of a grant make up the duration of every sequence of rows that the grant admits. -/
theorem Catalog.within_fillers {c : Catalog} {granted : ResourceSet} {memory : List String}
    {picked : List Row} {n : Nat} (hpicked : picked ⊆ c.admissible granted)
    (hlength : picked.length ≤ n) :
    Reach.Within (c.fillers granted memory) n (picked.map Row.duration).sum := by
  have hall := (Reach.within_fillers memory).mpr ⟨picked, hpicked, hlength, rfl⟩
  refine hall.of_durations ?_
  rw [Catalog.fillers, Reach.durations_fillers, Reach.durations_fillers]
  exact fun _ => Catalog.mem_durations_available.mpr

/-- A window that admitted rows fit is answered, and it does not begin above the longest duration. -/
theorem Reach.answered_of_fits {c : Catalog} {key : TableKey} {w : Window} {picked : List Row}
    (hsum : 2 * (picked.map Row.duration).sum < bound64)
    (h : Row.Fits (c.admissible key.granted) key.budget w picked) :
    w.min ≤ (Reach.ofKey c key).top ∧ ∃ g, (Reach.ofKey c key).lookupWindow w = some g := by
  have hlow := h.min_le
  have hmin : w.min ≤ (picked.map Row.duration).sum := by omega
  have hreaches : (Reach.ofKey c key).reaches (picked.map Row.duration).sum = true :=
    reaches_of_within (Catalog.within_fillers h.subset h.length_le) hsum
  exact ⟨Int.le_trans hmin (Int.ofNat_le.mpr (le_top_of_reaches hreaches)),
    lookupWindow_of_reaches hreaches hmin h.le_max⟩

end DelaySynth
