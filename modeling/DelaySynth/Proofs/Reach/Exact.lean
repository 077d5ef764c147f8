import DelaySynth.Proofs.Reach.Layers
import Mathlib.Data.List.Fold
import Mathlib.Data.List.MinMax

/-!
# What a computed table answers

The marks of a table at some layer lead from a duration to one that needs one filler less, so following
them is as short as any sequence of that duration. A table that was computed within a limit of steps has
room for all durations that its budget admits.

* `length_follow_le`: no sequence of a duration is shorter than the one that the marks lead along.
* `sequence?_of_reaches`, `shortest_of_sequence?`: so what a table answers with is a shortest sequence.
* `run_compute_eq_ok`: what is computed is the table of its fillers, and its room is within the limit.
* `compute_exact`: the durations that a computed table knows, the longest of them, and its sequences.
-/

namespace DelaySynth

/-! ## Sequences of rows -/

/-- A list of images is the image of a list. -/
theorem exists_eq_map_of_subset {α β : Type} {f : α → β} {as : List α} {bs : List β}
    (h : bs ⊆ as.map f) : ∃ picked, picked ⊆ as ∧ bs = picked.map f := by
  induction bs with
  | nil => exact ⟨[], List.nil_subset _, rfl⟩
  | cons b bs ih =>
    obtain ⟨hb, hbs⟩ := List.cons_subset.mp h
    obtain ⟨a, ha, rfl⟩ := List.mem_map.mp hb
    obtain ⟨picked, hpicked, rfl⟩ := ih hbs
    exact ⟨a :: picked, List.cons_subset.mpr ⟨ha, hpicked⟩, rfl⟩

/-- What is picked from a list is matched, one by one, by what another list with the same images has. -/
theorem exists_match_of_subset {α β : Type} {f : α → β} {as as' picked : List α}
    (hsub : as.map f ⊆ as'.map f) (h : picked ⊆ as) :
    ∃ picked', picked' ⊆ as' ∧ picked'.length = picked.length ∧ picked'.map f = picked.map f := by
  obtain ⟨picked', hpicked', heq⟩ :=
    exists_eq_map_of_subset (List.Subset.trans (List.map_subset f h) hsub)
  exact ⟨picked', hpicked', by simpa using congrArg List.length heq.symm, heq.symm⟩

/-- Fillers are made from rows. -/
theorem Row.exists_of_subset_fillers {rows : List Row} {memory : List String}
    {items : List Instruction} (h : items ⊆ rows.map (Row.filler memory)) :
    ∃ picked, picked ⊆ rows ∧ items = picked.map (Row.filler memory) :=
  exists_eq_map_of_subset h

theorem Row.sum_duration_fillers (memory : List String) (picked : List Row) :
    ((picked.map (Row.filler memory)).map Instruction.duration).sum =
      (picked.map Row.duration).sum := by
  rw [List.map_map]
  exact congrArg List.sum (List.map_congr_left fun row _ => Row.duration_filler memory row)

namespace Reach

variable {fillers : List Instruction} {n d : Nat}

theorem within_fillers {rows : List Row} (memory : List String) :
    Within (rows.map (Row.filler memory)) n d ↔
      ∃ picked, picked ⊆ rows ∧ picked.length ≤ n ∧ (picked.map Row.duration).sum = d := by
  constructor
  · rintro ⟨items, hsub, hlength, rfl⟩
    obtain ⟨picked, hpicked, rfl⟩ := Row.exists_of_subset_fillers hsub
    exact ⟨picked, hpicked, by simpa using hlength, (Row.sum_duration_fillers memory picked).symm⟩
  · rintro ⟨picked, hpicked, hlength, rfl⟩
    exact ⟨picked.map (Row.filler memory), List.map_subset _ hpicked, by simpa using hlength,
      Row.sum_duration_fillers memory picked⟩

/-! ## Shortest sequences -/

/-- Each step along the marks leaves a duration that needs one filler less. -/
theorem Layer.length_follow_le {t : Reach} (h : Layer fillers n t) (fuel : Nat) {k d : Nat}
    (hk : Within fillers k d) (found : List Instruction) :
    (follow t.marks fuel d found).length ≤ k + found.length := by
  induction fuel generalizing k d found with
  | zero => exact Nat.le_add_left _ _
  | succ fuel ih =>
    rw [follow]
    split
    · rename_i previous last hmark
      obtain ⟨j, rfl, hj⟩ := h.shorter d previous last hmark k hk
      have := ih hj (last :: found)
      rw [List.length_cons] at this
      omega
    · exact Nat.le_add_left _ _

/-- A reached duration has a sequence, which lasts that long and is as short as any that does. -/
theorem sequence?_of_reaches {budget : Nat} (h : (ofFillers fillers budget).reaches d = true) :
    ∃ items, (ofFillers fillers budget).sequence? d = some items ∧ items ⊆ fillers ∧
      (items.map Instruction.duration).sum = d ∧ ∀ k, Within fillers k d → items.length ≤ k := by
  have hsome : (ofFillers fillers budget).sequence? d =
      some (follow (ofFillers fillers budget).marks d d []) := if_pos h
  obtain ⟨hduration, hsub⟩ := sequence?_ofFillers hsome
  refine ⟨_, hsome, hsub, ?_, fun k hk => ?_⟩
  · rwa [← totalDuration_instr]
  · exact (layer_ofFillers fillers budget).length_follow_le d hk []

/-- What a table answers with is a shortest sequence, and its length is within the budget. -/
theorem shortest_of_sequence? {budget : Nat} {items : List Instruction}
    (h : (ofFillers fillers budget).sequence? d = some items) : items ⊆ fillers ∧
      (items.map Instruction.duration).sum = d ∧ items.length ≤ budget ∧
      ∀ k, Within fillers k d → items.length ≤ k := by
  have hreached := reaches_of_sequence? h
  obtain ⟨found, hfound, hsub, hsum, hshortest⟩ := sequence?_of_reaches hreached
  obtain rfl : items = found := Option.some.inj (h.symm.trans hfound)
  exact ⟨hsub, hsum, hshortest _ (reaches_ofFillers.mp hreached).2, hshortest⟩

/-! ## Computed tables -/

/-- The duration of the longest filler. -/
def longest (fillers : List Instruction) : Nat :=
  (fillers.map Instruction.duration).foldl max 0

theorem duration_le_longest {filler : Instruction} (h : filler ∈ fillers) :
    filler.duration ≤ longest fillers := by
  rw [longest, List.foldl_eq_foldr]
  exact List.le_max_of_le' 0 (List.mem_map_of_mem h) le_rfl

/-- A sequence lasts at most as long as the longest filler in all its places. -/
theorem Within.le (h : Within fillers n d) : d ≤ n * longest fillers := by
  obtain ⟨items, hsub, hlength, rfl⟩ := h
  have hsum := List.sum_le_card_nsmul (items.map Instruction.duration) (longest fillers) <|
    List.forall_mem_map.mpr fun i hi => duration_le_longest (hsub hi)
  rw [List.length_map, Nat.nsmul_eq_mul] at hsum
  exact Nat.le_trans hsum (Nat.mul_le_mul_right _ hlength)

theorem room_eq_min (fillers : List Instruction) (budget : Nat) : room fillers budget =
    min (min (budget * longest fillers) SearchM.maxSteps + 1) SearchM.maxSteps :=
  rfl

/-- A table that has been charged for within a limit has room for as many of the longest filler as its
budget admits. -/
theorem room_eq {limit budget : Nat} (hlimit : 2 * limit < bound64)
    (hroom : min (room fillers budget) SearchM.maxSteps ≤ limit) :
    room fillers budget ≤ limit ∧ room fillers budget = budget * longest fillers + 1 := by
  simp only [room_eq_min, SearchM.maxSteps, bound64] at hlimit hroom ⊢
  omega

/-- So it has room for all durations that its budget admits. -/
theorem Within.lt_room {limit budget : Nat} (hlimit : 2 * limit < bound64)
    (hroom : room fillers budget ≤ limit) (h : Within fillers budget d) : d < room fillers budget := by
  have hle := h.le
  obtain ⟨-, hroom⟩ := room_eq hlimit (Nat.le_trans (Nat.min_le_left _ _) hroom)
  omega

/-! ## Runs -/

variable {limit budget : Nat} {rows : List Row} {memory : List String} {s u : Session} {t : Reach}

theorem run_rounds_eq_ok {fillers : List Instruction} {n : Nat} {t' : Reach}
    (h : (rounds limit fillers n t).run s = .ok t' u) : t' = fill fillers n t := by
  induction n generalizing t s with
  | zero => exact (run_pure_eq_ok.mp h).1.symm
  | succ n ih =>
    obtain ⟨_, _, -, h⟩ := run_bind_eq_ok.mp h
    rw [fill]
    cases hround : t.round fillers with
    | mk next changed =>
      rw [hround] at h
      cases changed with
      | true => exact ih h
      | false => exact (run_pure_eq_ok.mp h).1.symm

/-- Steps that have been charged for are within the limit, as far as they are counted. -/
theorem min_le_of_charge {count : Nat} {x : Unit}
    (h : (SearchM.charge limit count).run s = .ok x u) : min count SearchM.maxSteps ≤ limit := by
  obtain ⟨rfl, hle⟩ := SearchM.run_charge_eq_ok h
  have hsteps : min (s.stats.steps + count) SearchM.maxSteps ≤ limit := hle
  omega

/-- What is computed is the table of the fillers, and its room has been counted as steps. -/
theorem run_compute_eq_ok (h : (compute limit rows budget memory).run s = .ok t u) :
    t = ofFillers (rows.map (Row.filler memory)) budget ∧
      min (room (rows.map (Row.filler memory)) budget) SearchM.maxSteps ≤ limit := by
  obtain ⟨_, _, hcharge, h⟩ := run_bind_eq_ok.mp h
  exact ⟨run_rounds_eq_ok h, min_le_of_charge hcharge⟩

/-- A table that is computed within a limit of steps knows exactly the durations that sequences of at
most `budget` rows have, in which a row may stand more than once. Its top is the longest of them. To
each of them it gives a sequence of fillers of the rows that is as short as any with this duration. -/
theorem compute_exact (hlimit : 2 * limit < bound64)
    (h : (compute limit rows budget memory).run s = .ok t u) :
    (∀ d : Int, t.reachesInt d = true ↔ ∃ picked, picked ⊆ rows ∧ picked.length ≤ budget ∧
      ((picked.map Row.duration).sum : Int) = d) ∧
    (t.reachesInt t.top = true ∧ ∀ d, t.reachesInt d = true → d ≤ t.top) ∧
    ∀ d, t.reachesInt d = true → ∃ picked, t.sequenceInt? d = some (picked.map (Row.filler memory)) ∧
      picked ⊆ rows ∧ picked.length ≤ budget ∧ ((picked.map Row.duration).sum : Int) = d ∧
      ∀ other, other ⊆ rows → ((other.map Row.duration).sum : Int) = d →
        picked.length ≤ other.length := by
  obtain ⟨rfl, hcharged⟩ := run_compute_eq_ok h
  have hroom : room (rows.map (Row.filler memory)) budget ≤ limit := by
    simp only [SearchM.maxSteps, bound64] at hlimit hcharged
    omega
  have hlayer := layer_ofFillers (rows.map (Row.filler memory)) budget
  have hreaches (d : Nat) : (ofFillers (rows.map (Row.filler memory)) budget).reaches d = true ↔
      ∃ picked, picked ⊆ rows ∧ picked.length ≤ budget ∧ (picked.map Row.duration).sum = d := by
    rw [reaches_ofFillers, ← within_fillers memory]
    exact ⟨fun hd => hd.2, fun hd => ⟨hd.lt_room hlimit hroom, hd⟩⟩
  refine ⟨fun d => ?_, ⟨hlayer.top, fun d hd => ?_⟩, fun d hd => ?_⟩
  · cases d with
    | ofNat d =>
      refine (hreaches d).trans ?_
      simp only [Int.ofNat_eq_natCast, Int.natCast_inj]
    | negSucc d =>
      constructor
      · intro hd
        cases hd
      · rintro ⟨picked, -, -, hsum⟩
        omega
  · cases d with
    | ofNat d => exact Int.ofNat_le.mpr (hlayer.le_top d hd)
    | negSucc d => cases hd
  · cases d with
    | negSucc d => cases hd
    | ofNat d =>
      obtain ⟨items, hitems, hsub, hsum, hshortest⟩ := sequence?_of_reaches hd
      obtain ⟨picked, hpicked, rfl⟩ := Row.exists_of_subset_fillers hsub
      simp only [List.length_map, Row.sum_duration_fillers] at hshortest hsum
      refine ⟨picked, hitems, hpicked, hshortest _ (reaches_ofFillers.mp hd).2, ?_, ?_⟩
      · rw [hsum]
        rfl
      · intro other hother hotherSum
        exact hshortest _ ((within_fillers memory).mpr ⟨other, hother, le_rfl, Int.natCast_inj.mp hotherSum⟩)

/-- A computation that does not fail. -/
theorem exists_of_computed {result : EStateM.Result SynthError Session Reach}
    (h : (match result with | .ok _ _ => true | .error _ _ => false) = true) :
    ∃ t u, result = .ok t u := by
  cases result with
  | ok t u => exact ⟨t, u, rfl⟩
  | error e u => cases h

/-- A row of no cycles neither gets in the way nor makes a sequence longer. -/
theorem compute_exact_nop : 2 * 100 < bound64 ∧ ∃ t u,
    (compute 100 [⟨"NOP", 4, 1, ∅, true⟩, ⟨"EQU", 0, 0, ∅, true⟩, ⟨"CPI 8b", 7, 2, ∅, true⟩] 3 []).run
      {} = .ok t u ∧
    t.reachesInt 11 = true ∧ t.reachesInt 10 = false ∧
    ∃ picked : List Row, t.sequenceInt? 11 = some (picked.map (Row.filler [])) ∧
      picked.length ≤ 2 := by
  have hcomputed : ∃ t u, (compute 100 [⟨"NOP", 4, 1, ∅, true⟩, ⟨"EQU", 0, 0, ∅, true⟩,
      ⟨"CPI 8b", 7, 2, ∅, true⟩] 3 []).run {} = .ok t u :=
    exists_of_computed (by decide +kernel)
  obtain ⟨t, u, h⟩ := hcomputed
  obtain ⟨hreaches, -, hsequence⟩ := compute_exact (by decide) h
  have heleven : t.reachesInt 11 = true :=
    (hreaches 11).mpr ⟨[⟨"NOP", 4, 1, ∅, true⟩, ⟨"CPI 8b", 7, 2, ∅, true⟩], by simp, by decide, rfl⟩
  obtain ⟨picked, hpicked, -, -, -, hshortest⟩ := hsequence 11 heleven
  refine ⟨by decide, t, u, h, heleven, ?_, picked, hpicked, ?_⟩
  · rw [(run_compute_eq_ok h).1]
    decide +kernel
  · exact hshortest [⟨"NOP", 4, 1, ∅, true⟩, ⟨"CPI 8b", 7, 2, ∅, true⟩] (by simp) rfl

end Reach

end DelaySynth
