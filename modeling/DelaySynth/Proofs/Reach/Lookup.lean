import DelaySynth.Proofs.Reach.Exact
import Mathlib.Data.Nat.Find

/-!
# Which windows are answered

The search through a window is cut off below zero and above the longest reached duration, and nothing
that is reached lies there. So a window is answered exactly if it holds a reached duration, and then
with the shortest one.

* `lookupWindow_le_of_reaches`, `lookupWindow_eq_none_iff`: which windows are answered, and how early.
* `Row.Fits`, `Row.Optimal`: the sequences of rows that fit a window, and the best of them.
* `optimal_of_lookupWindow`, `lookupWindow_ofRows_eq_none`: the answers of the table of some rows.
* `lookupWindow_exact`: so does every computed table answer, whatever the ends of the window are.
-/

namespace DelaySynth

namespace Reach

variable {fillers : List Instruction} {budget d : Nat} {w : Window}

/-! ## Windows with a reached duration -/

theorem le_top_of_reaches (hd : (ofFillers fillers budget).reaches d = true) :
    d ≤ (ofFillers fillers budget).top :=
  (layer_ofFillers fillers budget).le_top d hd

/-- A window is answered if it holds a duration that is reached, and no later than that. -/
theorem lookupWindow_le_of_reaches (hd : (ofFillers fillers budget).reaches d = true)
    (hmin : w.min ≤ d) (hmax : d ≤ w.max) :
    ∃ g, (ofFillers fillers budget).lookupWindow w = some g ∧ g.duration ≤ d := by
  -- The shortest of the reached durations in the window is not above this one.
  have hexists : ∃ e : Nat, (ofFillers fillers budget).reaches e = true ∧ w.min ≤ e :=
    ⟨d, hd, hmin⟩
  obtain ⟨hreached, hlow⟩ := Nat.find_spec hexists
  have hle : Nat.find hexists ≤ d := Nat.find_min' hexists ⟨hd, hmin⟩
  obtain ⟨items, hitems, -, hsum, -⟩ := sequence?_of_reaches hreached
  refine ⟨_, lookupWindow_eq_some_iff.mpr ⟨_, items, hitems, rfl, hlow, by omega,
    le_top_of_reaches hreached, fun e he hlt => ?_⟩, ?_⟩
  · by_contra hfree
    exact Nat.find_min hexists hlt ⟨by simpa using hfree, he⟩
  · rw [Group.duration_unordered, totalDuration_instr, hsum]
    exact hle

theorem lookupWindow_of_reaches (hd : (ofFillers fillers budget).reaches d = true)
    (hmin : w.min ≤ d) (hmax : d ≤ w.max) :
    ∃ g, (ofFillers fillers budget).lookupWindow w = some g := by
  obtain ⟨g, hg, -⟩ := lookupWindow_le_of_reaches hd hmin hmax
  exact ⟨g, hg⟩

theorem lookupWindow_eq_none_iff : (ofFillers fillers budget).lookupWindow w = none ↔
    ∀ d : Nat, (ofFillers fillers budget).reaches d = true → ¬(w.min ≤ d ∧ d ≤ w.max) := by
  constructor
  · rintro hnone d hd ⟨hmin, hmax⟩
    obtain ⟨g, hg⟩ := lookupWindow_of_reaches hd hmin hmax
    cases hnone.symm.trans hg
  · intro hfree
    rw [Option.eq_none_iff_forall_ne_some]
    intro g hg
    obtain ⟨d, items, hitems, -, hmin, hmax⟩ := lookupWindow_eq_some hg
    exact hfree d (reaches_of_sequence? hitems) ⟨hmin, hmax⟩

/-! ## Durations that a word can count -/

theorem reaches_of_within (h : Within fillers budget d) (hd : 2 * d < bound64) :
    (ofFillers fillers budget).reaches d = true := by
  refine reaches_ofFillers.mpr ⟨?_, h⟩
  have hle := h.le
  simp only [room_eq_min, SearchM.maxSteps, bound64] at hd ⊢
  omega

end Reach

/-! ## Sequences of rows -/

/-- Some rows of a list, at most `n` of them and each of them as often as one likes, that last as long
as a window asks for. -/
structure Row.Fits (rows : List Row) (n : Nat) (w : Window) (picked : List Row) : Prop where
  subset : picked ⊆ rows
  length_le : picked.length ≤ n
  min_le : max w.min 0 ≤ (picked.map Row.duration).sum
  le_max : (picked.map Row.duration).sum ≤ w.max

instance (rows : List Row) (n : Nat) (w : Window) (picked : List Row) :
    Decidable (Row.Fits rows n w picked) :=
  decidable_of_iff (picked ⊆ rows ∧ picked.length ≤ n ∧
      max w.min 0 ≤ (picked.map Row.duration).sum ∧ (picked.map Row.duration).sum ≤ w.max)
    ⟨fun ⟨subset, length_le, min_le, le_max⟩ => ⟨subset, length_le, min_le, le_max⟩,
      fun h => ⟨h.subset, h.length_le, h.min_le, h.le_max⟩⟩

/-- No rows that fit the window last less than these, and none that last as long are fewer. -/
structure Row.Optimal (rows : List Row) (n : Nat) (w : Window) (picked : List Row) : Prop
    extends Row.Fits rows n w picked where
  earliest : ∀ other, Row.Fits rows n w other →
    (picked.map Row.duration).sum ≤ (other.map Row.duration).sum
  fewest : ∀ other, Row.Fits rows n w other →
    (other.map Row.duration).sum = (picked.map Row.duration).sum → picked.length ≤ other.length

/-- Rows that fit a window are matched by rows of the same durations. -/
theorem Row.Fits.of_durations {rows rows' picked : List Row} {n : Nat} {w : Window}
    (hsub : rows.map Row.duration ⊆ rows'.map Row.duration) (h : Row.Fits rows n w picked) :
    ∃ picked', Row.Fits rows' n w picked' ∧ picked'.length = picked.length ∧
      picked'.map Row.duration = picked.map Row.duration := by
  obtain ⟨picked', hpicked', hlength, heq⟩ := exists_match_of_subset hsub h.subset
  exact ⟨picked', ⟨hpicked', hlength ▸ h.length_le, heq ▸ h.min_le, heq ▸ h.le_max⟩, hlength, heq⟩

/-- Rows that only add to the durations that are there already do no better. -/
theorem Row.Optimal.of_durations {rows rows' picked : List Row} {n : Nat} {w : Window}
    (hrows : rows ⊆ rows') (hsub : rows'.map Row.duration ⊆ rows.map Row.duration)
    (h : Row.Optimal rows n w picked) : Row.Optimal rows' n w picked where
  subset := List.Subset.trans h.subset hrows
  length_le := h.length_le
  min_le := h.min_le
  le_max := h.le_max
  earliest other hother := by
    obtain ⟨other', hother', -, heq⟩ := hother.of_durations hsub
    rw [← heq]
    exact h.earliest other' hother'
  fewest other hother htotal := by
    obtain ⟨other', hother', hlength, heq⟩ := hother.of_durations hsub
    rw [← hlength]
    rw [← heq] at htotal
    exact h.fewest other' hother' htotal

/-- The sequence of some rows as fillers. -/
def Row.fillerGroup (memory : List String) (picked : List Row) : Group Code :=
  .unordered (picked.map fun row => .instr (row.filler memory))

theorem Row.fillerGroup_eq (memory : List String) (picked : List Row) :
    fillerGroup memory picked = .unordered ((picked.map (Row.filler memory)).map Code.instr) := by
  rw [fillerGroup, List.map_map]
  rfl

theorem Row.duration_fillerGroup (memory : List String) (picked : List Row) :
    (fillerGroup memory picked).duration = (picked.map Row.duration).sum := by
  rw [fillerGroup_eq, Group.duration_unordered, Reach.totalDuration_instr, sum_duration_fillers]

theorem Row.length_fillerGroup (memory : List String) (picked : List Row) :
    (fillerGroup memory picked).length = picked.length := by
  rw [fillerGroup_eq, Group.length_instructions, List.length_map]

namespace Reach

variable {rows picked : List Row} {memory : List String} {budget d : Nat} {w : Window} {g : Group Code}

theorem reaches_of_fits (hmax : 2 * w.max < bound64) (h : Row.Fits rows budget w picked) :
    (ofFillers (rows.map (Row.filler memory)) budget).reaches (picked.map Row.duration).sum = true := by
  have hle := h.le_max
  exact reaches_of_within ((within_fillers memory).mpr ⟨picked, h.subset, h.length_le, rfl⟩) (by omega)

theorem optimal_of_lookupWindow (hmax : 2 * w.max < bound64)
    (h : (ofFillers (rows.map (Row.filler memory)) budget).lookupWindow w = some g) :
    ∃ picked, Row.Optimal rows budget w picked ∧ g = Row.fillerGroup memory picked := by
  obtain ⟨d, items, hitems, rfl, hlow, hhigh, -, hbelow⟩ := lookupWindow_eq_some_iff.mp h
  obtain ⟨hsub, hsum, hlength, hshortest⟩ := shortest_of_sequence? hitems
  obtain ⟨picked, hpicked, rfl⟩ := Row.exists_of_subset_fillers hsub
  simp only [List.length_map, Row.sum_duration_fillers] at hlength hshortest hsum
  refine ⟨picked, ⟨⟨hpicked, hlength, ?_, ?_⟩, fun other hother => ?_, fun other hother htotal => ?_⟩,
    (Row.fillerGroup_eq _ _).symm⟩
  · omega
  · omega
  · have hmin := hother.min_le
    by_contra hlt
    have hfree := hbelow (other.map Row.duration).sum (by omega) (by omega)
    rw [reaches_of_fits hmax hother] at hfree
    cases hfree
  · exact hshortest _ ((within_fillers memory).mpr
      ⟨other, hother.subset, Nat.le_refl _, htotal.trans hsum⟩)

theorem lookupWindow_ofRows_eq_none (hmax : 2 * w.max < bound64) :
    (ofFillers (rows.map (Row.filler memory)) budget).lookupWindow w = none ↔
      ¬∃ picked, Row.Fits rows budget w picked := by
  constructor
  · rintro hnone ⟨picked, hpicked⟩
    have hmin := hpicked.min_le
    exact lookupWindow_eq_none_iff.mp hnone _ (reaches_of_fits hmax hpicked)
      ⟨by omega, hpicked.le_max⟩
  · intro hfree
    rw [Option.eq_none_iff_forall_ne_some]
    intro g hg
    obtain ⟨picked, hpicked, -⟩ := optimal_of_lookupWindow hmax hg
    exact hfree ⟨picked, hpicked.toFits⟩

/-! ## Computed tables -/

variable {limit : Nat} {s u : Session} {t : Reach}

/-- A computed table answers a window whose ends are words with signs, wherever they lie, exactly if
some of its rows fit it, and with an unordered group of the best ones that do. -/
theorem lookupWindow_exact (hmax : 2 * w.max < bound64)
    (h : (compute limit rows budget memory).run s = .ok t u) :
    (t.lookupWindow w = none ↔ ¬∃ picked, Row.Fits rows budget w picked) ∧
    ∀ g, t.lookupWindow w = some g → g.ordered = false ∧
      ∃ picked, Row.Optimal rows budget w picked ∧ g = Row.fillerGroup memory picked ∧
        g.duration = (picked.map Row.duration).sum := by
  obtain ⟨rfl, -⟩ := run_compute_eq_ok h
  refine ⟨lookupWindow_ofRows_eq_none hmax, fun g hg => ?_⟩
  obtain ⟨picked, hpicked, rfl⟩ := optimal_of_lookupWindow hmax hg
  exact ⟨rfl, picked, hpicked, rfl, Row.duration_fillerGroup memory picked⟩

/-- Three instructions of four or seven cycles leave a gap at nine and ten. A window that reaches below
zero is answered with no instruction, and one that reaches far beyond the table with the longest
sequence. -/
theorem lookupWindow_exact_gap : 2 * (1000000 : Int) < bound64 ∧ ∃ t u,
    (compute 100 [⟨"NOP", 4, 1, ∅, true⟩, ⟨"CPI 8b", 7, 2, ∅, true⟩] 3 []).run {} = .ok t u ∧
    (¬∃ picked, Row.Fits [⟨"NOP", 4, 1, ∅, true⟩, ⟨"CPI 8b", 7, 2, ∅, true⟩] 3 ⟨9, 10⟩ picked) ∧
    (∃ g, t.lookupWindow ⟨-5, 3⟩ = some g ∧ g.duration = 0) ∧
    ∃ g, t.lookupWindow ⟨21, 1000000⟩ = some g ∧ g.duration = 21 := by
  have hcomputed : ∃ t u, (compute 100 [⟨"NOP", 4, 1, ∅, true⟩, ⟨"CPI 8b", 7, 2, ∅, true⟩] 3 []).run
      {} = .ok t u :=
    exists_of_computed (by decide +kernel)
  obtain ⟨t, u, h⟩ := hcomputed
  -- Some rows that fit a window bound its answer.
  have hanswer (w : Window) (hmax : 2 * w.max < bound64) (other : List Row)
      (hother : Row.Fits [⟨"NOP", 4, 1, ∅, true⟩, ⟨"CPI 8b", 7, 2, ∅, true⟩] 3 w other) :
      ∃ g, t.lookupWindow w = some g ∧ max w.min 0 ≤ g.duration ∧
        g.duration ≤ (other.map Row.duration).sum := by
    obtain ⟨hnone, hsome⟩ := lookupWindow_exact hmax h
    cases hlookup : t.lookupWindow w with
    | none => exact absurd ⟨other, hother⟩ (hnone.mp hlookup)
    | some g =>
      obtain ⟨-, picked, hpicked, -, hduration⟩ := hsome g hlookup
      have hbounds : max w.min 0 ≤ g.duration ∧ g.duration ≤ (other.map Row.duration).sum := by
        rw [hduration]
        exact ⟨hpicked.min_le, hpicked.earliest other hother⟩
      exact ⟨g, rfl, hbounds⟩
  refine ⟨by decide, t, u, h, ?_, ?_, ?_⟩
  · refine (lookupWindow_exact (by decide) h).1.mp ?_
    rw [(run_compute_eq_ok h).1]
    decide +kernel
  · obtain ⟨g, hg, -, hle⟩ := hanswer ⟨-5, 3⟩ (by decide) [] (by decide)
    exact ⟨g, hg, Nat.le_zero.mp hle⟩
  · obtain ⟨g, hg, hlow, hhigh⟩ := hanswer ⟨21, 1000000⟩ (by decide)
      (List.replicate 3 ⟨"CPI 8b", 7, 2, ∅, true⟩) (by decide)
    exact ⟨g, hg, Nat.le_antisymm hhigh (Int.ofNat_le.mp hlow)⟩

end Reach

end DelaySynth
