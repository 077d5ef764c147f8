import DelaySynth.Catalog.Basic
import DelaySynth.Proofs.ResourceSet
import Mathlib.Data.List.Induction

/-!
# Rows that a grant admits

Of the rows that a grant admits the table keeps one for each duration, the one that is listed first. So
the kept rows have the same durations as the admitted ones, and a larger grant loses none of them.

* `mem_durations_available`: the durations of the kept rows are those of the admitted ones.
* `durations_available_mono`: with a larger grant there are more of them.
* `available_eq`: which rows are kept, and in which order.
-/

namespace DelaySynth

/-! ## One row for each duration -/

namespace Row

variable {rows : List Row} {row : Row} {d : Nat}

theorem sublist_firstPerDuration (rows : List Row) : (firstPerDuration rows).Sublist rows := by
  induction rows with
  | nil => exact .slnil
  | cons first rows ih => exact (List.filter_sublist.trans ih).cons_cons first

/-- What is added behind a list is kept if its duration is new. -/
theorem firstPerDuration_concat (rows : List Row) (row : Row) :
    firstPerDuration (rows ++ [row]) =
      firstPerDuration rows ++ if row.duration ∈ rows.map Row.duration then [] else [row] := by
  induction rows with
  | nil => rfl
  | cons first rows ih =>
    rw [List.cons_append, firstPerDuration, ih, firstPerDuration, List.filter_append,
      List.cons_append, List.map_cons]
    congr 2
    by_cases hsame : row.duration = first.duration
    · have hold : row.duration ∈ first.duration :: rows.map Row.duration :=
        hsame ▸ List.mem_cons_self
      rw [if_pos hold]
      split <;> simp [hsame]
    · simp only [List.mem_cons, hsame, false_or]
      split <;> simp [hsame]

theorem mem_durations_firstPerDuration :
    d ∈ (firstPerDuration rows).map Row.duration ↔ d ∈ rows.map Row.duration := by
  induction rows using List.reverseRecOn with
  | nil => rfl
  | append_singleton rows row ih =>
    rw [firstPerDuration_concat, List.map_append, List.map_append, List.mem_append, List.mem_append,
      ih]
    split
    · rename_i hold
      simp only [List.map_nil, List.not_mem_nil, or_false, List.map_cons, List.mem_singleton]
      refine ⟨.inl, ?_⟩
      rintro (hd | rfl)
      · exact hd
      · exact hold
    · rfl

end Row

/-! ## Admitted rows -/

namespace Catalog

variable {c : Catalog} {granted granted' : ResourceSet} {row : Row} {d : Nat}

/-- The rows that may be used as filler under a grant. -/
def admissible (c : Catalog) (granted : ResourceSet) : List Row :=
  c.rows.filter fun row => row.Admissible granted

theorem mem_admissible : row ∈ c.admissible granted ↔ row ∈ c.rows ∧ row.Admissible granted := by
  rw [admissible, List.mem_filter, decide_eq_true_eq]

theorem admissible_mono (h : granted ⊆ granted') : c.admissible granted ⊆ c.admissible granted' := by
  intro row hrow
  obtain ⟨hlisted, husable, hneeds⟩ := mem_admissible.mp hrow
  exact mem_admissible.mpr ⟨hlisted, husable, ResourceSet.subset_trans hneeds h⟩

theorem available_sublist (c : Catalog) (granted : ResourceSet) :
    (c.available granted).Sublist (c.admissible granted) :=
  Row.sublist_firstPerDuration _

theorem mem_durations_available : d ∈ (c.available granted).map Row.duration ↔
    d ∈ (c.admissible granted).map Row.duration :=
  Row.mem_durations_firstPerDuration

/-- Under a larger grant another row may be kept for a duration, but one is kept. -/
theorem durations_available_mono (h : granted ⊆ granted') :
    (c.available granted).map Row.duration ⊆ (c.available granted').map Row.duration := by
  intro d hd
  exact mem_durations_available.mpr
    (List.map_subset _ (admissible_mono h) (mem_durations_available.mp hd))

/-- A row stands at a place of a list, it is admitted, and no admitted row before it has its duration. -/
def FirstOfDuration (rows : List Row) (granted : ResourceSet) (p : Row × Nat) : Prop :=
  p.1.Admissible granted ∧ ∀ earlier ∈ rows.take p.2,
    earlier.Admissible granted → earlier.duration ≠ p.1.duration

instance (rows : List Row) (granted : ResourceSet) (p : Row × Nat) :
    Decidable (FirstOfDuration rows granted p) :=
  inferInstanceAs (Decidable (_ ∧ _))

/-- The kept rows are, in the order of the table, those admitted rows whose duration no admitted row
before them has. -/
theorem available_eq (c : Catalog) (granted : ResourceSet) : c.available granted =
    (c.rows.zipIdx.filter fun p => FirstOfDuration c.rows granted p).map Prod.fst := by
  obtain ⟨rows⟩ := c
  unfold available
  simp only
  induction rows using List.reverseRecOn with
  | nil => rfl
  | append_singleton rows row ih =>
    have hbefore : (rows.zipIdx.filter fun p => FirstOfDuration (rows ++ [row]) granted p) =
        rows.zipIdx.filter fun p => FirstOfDuration rows granted p := by
      refine List.filter_congr fun p hp => ?_
      have hlt : p.2 < rows.length := List.snd_lt_of_mem_zipIdx hp
      refine decide_eq_decide.mpr ?_
      unfold FirstOfDuration
      rw [List.take_append_of_le_length (Nat.le_of_lt hlt)]
    have hlast : FirstOfDuration (rows ++ [row]) granted (row, rows.length) ↔
        row.Admissible granted ∧
          row.duration ∉ (rows.filter fun r => r.Admissible granted).map Row.duration := by
      simp only [FirstOfDuration, List.take_left, List.mem_map, List.mem_filter, decide_eq_true_eq,
        not_exists, not_and, and_imp, ne_eq]
    rw [List.filter_append, List.zipIdx_append, List.filter_append, List.map_append, hbefore, ← ih,
      Nat.zero_add]
    by_cases hadmissible : row.Admissible granted
    · have hkept : [row].filter (fun r => r.Admissible granted) = [row] :=
        List.filter_eq_self.mpr (by simpa using hadmissible)
      rw [hkept, Row.firstPerDuration_concat]
      congr 1
      simp only [hadmissible, true_and] at hlast
      split <;> simp_all
    · have hdropped : [row].filter (fun r => r.Admissible granted) = [] :=
        List.filter_eq_nil_iff.mpr (by simpa using hadmissible)
      simp [hdropped, hlast, hadmissible]

end Catalog

end DelaySynth
