import DelaySynth.Proofs.Reach.Exact
import Mathlib.Logic.Relation

/-!
# The moments of filling a table

A table is filled in small steps: the duration at hand is extended by one filler, or the round goes down
to the next duration, or another round begins. What a round still has to extend was marked before it, so
in the round `r` it is `r - 1` times the longest filler at most. That is why no index lies outside the
table, and every mark leads to a shorter duration.

* `Moment.next?` is one step, and `Moment.Occurs` says that the steps lead to a moment. The computation of
  a table takes these steps (`later_round`, `later_rounds`).
* `Moment.Kept` is what a step preserves (`Kept.next?`) and what holds at every moment (`Occurs.kept`).
* `moments_sound`: the indices of a table that has been charged for, its marks and the ways along them
  are sound at every moment.
-/

namespace DelaySynth.Reach

variable {fillers : List Instruction} {budget : Nat}

/-! ## Moments -/

/-- How far the filling of a table has come. Of the durations that the current round goes through, those
below `base` are still to be extended by every filler, and `base` itself by the fillers in `rest`. -/
structure Moment where
  /-- The number of the current round, which is zero before the first one. -/
  round : Nat
  /-- The duration that the round has come to. -/
  base : Nat
  /-- The fillers that it has not been extended by. -/
  rest : List Instruction
  /-- The table in the course of the round. -/
  sweep : Sweep

namespace Moment

/-- A round has been finished, or none has begun. -/
def between (round : Nat) (t : Reach) (changed : Bool) : Moment :=
  ⟨round, 0, [], ⟨t.marks, t.top, changed⟩⟩

/-- The moment after this one. Another round follows on one that has marked anything, as long as there
are instructions left in the budget. -/
def next? (fillers : List Instruction) (budget : Nat) : Moment → Option Moment
  | ⟨round, base, filler :: rest, s⟩ => some ⟨round, base, rest, s.extend base filler⟩
  | ⟨round, base + 1, [], s⟩ =>
    some ⟨round, base, if isReached (s.marks.getD base .unreached) then fillers else [], s⟩
  | ⟨round, 0, [], s⟩ =>
    if round < budget ∧ s.changed then
      some ⟨round + 1, s.top + 1, [], { s with changed := false }⟩
    else none

/-- One moment comes after another, or it is the same. -/
def Later (fillers : List Instruction) (budget : Nat) : Moment → Moment → Prop :=
  Relation.ReflTransGen fun m m' => m.next? fillers budget = some m'

/-- The moment occurs when the table for a budget is filled. -/
def Occurs (fillers : List Instruction) (budget : Nat) (m : Moment) : Prop :=
  Later fillers budget (between 0 (start budget (room fillers budget)) true) m

/-- The table as it is at the moment. -/
def table (budget : Nat) (m : Moment) : Reach :=
  ⟨budget, m.sweep.marks, m.sweep.top⟩

/-- The current round has yet to extend the duration, by some filler at least. -/
def Pending (m : Moment) (d : Nat) : Prop :=
  d < m.base ∨ d = m.base ∧ m.rest ≠ []

/-! ## Rounds are made of moments -/

theorem later_foldl_extend (round base : Nat) (rest : List Instruction) (s : Sweep) :
    Later fillers budget ⟨round, base, rest, s⟩
      ⟨round, base, [], rest.foldl (Sweep.extend base) s⟩ := by
  induction rest generalizing s with
  | nil => exact .refl
  | cons filler rest ih => exact .head rfl (ih (s.extend base filler))

theorem later_down (round n : Nat) (s : Sweep) :
    Later fillers budget ⟨round, n, [], s⟩ ⟨round, 0, [], s.down fillers n⟩ := by
  induction n generalizing s with
  | zero => exact .refl
  | succ n ih =>
    refine .head rfl ?_
    rw [Sweep.down, Sweep.extendAll]
    split
    · exact (later_foldl_extend round n fillers s).trans (ih _)
    · exact ih s

theorem later_round {round : Nat} (h : round < budget) (t : Reach) :
    Later fillers budget (between round t true)
      (between (round + 1) (t.round fillers).1 (t.round fillers).2) := by
  have hnext : (between round t true).next? fillers budget =
      some ⟨round + 1, t.top + 1, [], ⟨t.marks, t.top, false⟩⟩ :=
    if_pos ⟨h, rfl⟩
  exact .head hnext (later_down _ _ _)

/-- What the computation of a table ends with at a moment: with the table, if this is the last moment, or
with an error, if another round would follow and its steps exceed the limit. -/
inductive Ends (limit : Nat) (fillers : List Instruction) (budget : Nat) (m : Moment) :
    EStateM.Result SynthError Session Reach → Prop
  | filled {s : Session} (last : m.next? fillers budget = none) :
      Ends limit fillers budget m (.ok (m.table budget) s)
  | stopped {s : Session} (idle : m.base = 0 ∧ m.rest = [])
      (exceeded : limit < (s.charged (m.sweep.top + 1)).stats.steps) :
      Ends limit fillers budget m (.error (.searchLimit limit) (s.charged (m.sweep.top + 1)))

/-- The rounds that are played with `n` instructions left in the budget. -/
theorem later_rounds (limit n : Nat) {round : Nat} {t : Reach} (hround : round + n = budget)
    (ht : t.budget = budget) (s : Session) : ∃ m, Later fillers budget (between round t true) m ∧
      m.Ends limit fillers budget ((rounds limit fillers n t).run s) := by
  induction n generalizing round t s with
  | zero =>
    have hlast : (between round t true).next? fillers budget = none := if_neg (by omega)
    subst ht
    exact ⟨_, .refl, .filled hlast⟩
  | succ n ih =>
    have hcharge := SearchM.run_charge limit (t.top + 1) s
    by_cases hlimit : limit < (s.charged (t.top + 1)).stats.steps
    · rw [if_pos hlimit] at hcharge
      rw [rounds, EStateM.run_bind, hcharge]
      exact ⟨between round t true, .refl, .stopped ⟨rfl, rfl⟩ hlimit⟩
    · rw [if_neg hlimit] at hcharge
      rw [rounds, run_bind_of_ok hcharge]
      have hlater : Later fillers budget (between round t true)
          (between (round + 1) (t.round fillers).1 (t.round fillers).2) :=
        later_round (by omega) t
      have hbudget : (t.round fillers).1.budget = budget := ht
      cases hcase : t.round fillers with
      | mk u changed =>
        rw [hcase] at hlater hbudget
        cases changed with
        | true =>
          obtain ⟨m, hm, hends⟩ := ih (show round + 1 + n = budget by omega) hbudget
            (s.charged (t.top + 1))
          exact ⟨m, hlater.trans hm, hends⟩
        | false =>
          have hlast : (between (round + 1) u false).next? fillers budget = none :=
            if_neg fun h => Bool.false_ne_true h.2
          subst hbudget
          exact ⟨_, hlater, .filled hlast⟩

/-! ## What steps preserve -/

/-- After `r` rounds no mark is above `r` times the longest filler, and in the course of a round this
holds with one filler less for what it has yet to extend. -/
structure Kept (fillers : List Instruction) (budget : Nat) (m : Moment) : Prop where
  round_le : m.round ≤ budget
  size : m.sweep.marks.size = room fillers budget
  rest : m.rest ⊆ fillers
  base : m.rest ≠ [] → Reached m.sweep.marks m.base
  origin : m.sweep.marks.getD 0 .unreached = .origin
  linked : Linked fillers m.sweep.marks
  reached : ∀ d, Reached m.sweep.marks d → d ≤ m.round * longest fillers
  pending : ∀ d, m.Pending d → Reached m.sweep.marks d →
    d + longest fillers ≤ m.round * longest fillers
  top : ∀ d, Reached m.sweep.marks d → d ≤ m.sweep.top

theorem kept_start (fillers : List Instruction) (budget : Nat) :
    (between 0 (start budget (room fillers budget)) true).Kept fillers budget := by
  have hroom := room_pos fillers budget
  have hzero (d : Nat) (hd : Reached (start budget (room fillers budget)).marks d) : d = 0 :=
    (reached_start hroom).mp hd
  constructor
  · exact Nat.zero_le _
  · simp [between, start]
  · exact List.nil_subset _
  · exact fun h => absurd rfl h
  · rw [between, start, getD_setIfInBounds (by simpa using hroom), if_pos rfl]
  · exact linked_start budget _
  · intro d hd
    rw [hzero d hd]
    exact Nat.zero_le _
  · rintro d (hd | ⟨-, hd⟩)
    · exact absurd hd (Nat.not_lt_zero d)
    · exact absurd rfl hd
  · intro d hd
    rw [hzero d hd]
    exact Nat.zero_le _

namespace Kept

variable {round base : Nat} {filler : Instruction} {rest : List Instruction} {s : Sweep}

/-- What an extension marks lies above the duration that it extends. -/
theorem extend (h : Kept fillers budget ⟨round, base, filler :: rest, s⟩) :
    Kept fillers budget ⟨round, base, rest, s.extend base filler⟩ := by
  have hbase : Reached s.marks base := h.base (List.cons_ne_nil _ _)
  obtain ⟨hfiller, hrest⟩ := List.cons_subset.mp h.rest
  have hlongest : filler.duration ≤ longest fillers := duration_le_longest hfiller
  have hroom : base + longest fillers ≤ round * longest fillers :=
    h.pending base (.inr ⟨rfl, List.cons_ne_nil _ _⟩) hbase
  have hzero : Reached s.marks 0 := by
    rw [Reached, h.origin]
    rfl
  constructor
  · exact h.round_le
  · exact (Sweep.size_extend base s filler).trans h.size
  · exact hrest
  · exact fun _ => Sweep.reached_extend_of_reached hbase
  · exact (Sweep.getD_extend_of_reached hzero).trans h.origin
  · exact Sweep.linked_extend h.linked hbase hfiller
  · intro d hd
    rcases Sweep.of_reached_extend hd with hd | ⟨-, rfl, -⟩
    · exact h.reached d hd
    · simp only
      omega
  · intro d hd hmarked
    rcases Sweep.of_reached_extend hmarked with hmarked | ⟨hfree, rfl, -⟩
    · exact h.pending d (hd.imp_right fun hd => ⟨hd.1, List.cons_ne_nil _ _⟩) hmarked
    · -- A filler of no cycles leads back to the base, which is marked already.
      have hle : base + filler.duration ≤ base := hd.elim Nat.le_of_lt fun hd => Nat.le_of_eq hd.1
      have hsame : base + filler.duration = base := by omega
      exact absurd (hsame.symm ▸ hbase) hfree
  · exact fun d hd => Sweep.le_top_extend h.top hd

theorem lower (h : Kept fillers budget ⟨round, base + 1, [], s⟩) :
    Kept fillers budget
      ⟨round, base, if isReached (s.marks.getD base .unreached) then fillers else [], s⟩ := by
  have hpending (d : Nat) (hd : d ≤ base) (hmarked : Reached s.marks d) :=
    h.pending d (.inl (Nat.lt_succ_of_le hd)) hmarked
  refine { h with rest := ?_, base := ?_, pending := fun d hd => hpending d ?_ }
  · simp only
    split
    · exact List.Subset.refl _
    · exact List.nil_subset _
  · intro hrest
    by_contra hfree
    exact hrest (if_neg hfree)
  · exact hd.elim Nat.le_of_lt fun hd => Nat.le_of_eq hd.1

theorem begin (h : Kept fillers budget ⟨round, 0, [], s⟩) (hround : round < budget) :
    Kept fillers budget ⟨round + 1, s.top + 1, [], { s with changed := false }⟩ := by
  have hle (d : Nat) (hd : Reached s.marks d) :
      d + longest fillers ≤ (round + 1) * longest fillers := by
    rw [Nat.succ_mul]
    exact Nat.add_le_add_right (h.reached d hd) _
  exact { h with
    round_le := hround
    base := fun hrest => absurd rfl hrest
    reached := fun d hd => Nat.le_trans (Nat.le_add_right d _) (hle d hd)
    pending := fun d _ => hle d }

/-- One step. -/
theorem next? {m m' : Moment} (h : m.Kept fillers budget)
    (hnext : m.next? fillers budget = some m') : m'.Kept fillers budget := by
  obtain ⟨round, base, rest, s⟩ := m
  cases rest with
  | cons filler rest =>
    cases hnext
    exact h.extend
  | nil =>
    cases base with
    | succ base =>
      cases hnext
      exact h.lower
    | zero =>
      rw [Moment.next?] at hnext
      split at hnext
      · rename_i hround
        cases hnext
        exact h.begin hround.1
      · cases hnext

end Kept

/-- All steps. -/
theorem Occurs.kept {m : Moment} (h : Occurs fillers budget m) : m.Kept fillers budget := by
  induction h with
  | refl => exact kept_start fillers budget
  | tail _ hnext ih => exact ih.next? hnext

end Moment

/-! ## Every moment -/

/-- What a table of some fillers is like at a moment of its filling. -/
structure Moment.Sound (fillers : List Instruction) (budget : Nat) (m : Moment) : Prop where
  /-- The table has the places that have been charged for. -/
  size : m.sweep.marks.size = room fillers budget
  /-- A round begins above all marked durations, so that it goes through each of them. -/
  le_top : ∀ d, Reached m.sweep.marks d → d ≤ m.sweep.top
  /-- What the round has yet to extend is followed by a place in the table, whatever extends it. -/
  inBounds : ∀ d, m.Pending d → Reached m.sweep.marks d → ∀ filler ∈ fillers,
    d + filler.duration < m.sweep.marks.size
  /-- Nothing comes before zero. -/
  origin : m.sweep.marks.getD 0 .unreached = .origin
  /-- Every other mark leads to a shorter duration, which is marked as well. -/
  back : ∀ d previous last, m.sweep.marks.getD d .unreached = .step previous last →
    previous < d ∧ Reached m.sweep.marks previous
  /-- From a marked duration the marks lead down to zero, and this is the way that its sequence tells. -/
  ends : ∀ d, Reached m.sweep.marks d →
    ∃ items, Leads m.sweep.marks d items ∧ (m.table budget).sequence? d = some items

theorem Moment.Kept.sound {m : Moment} (hroom : room fillers budget = budget * longest fillers + 1)
    (h : m.Kept fillers budget) : m.Sound fillers budget where
  size := h.size
  le_top := h.top
  inBounds d hd hmarked filler hfiller := by
    have hlongest := duration_le_longest hfiller
    have hpending := h.pending d hd hmarked
    have hrounds := Nat.mul_le_mul_right (longest fillers) h.round_le
    rw [h.size, hroom]
    omega
  origin := h.origin
  back d previous last hmark := by
    obtain ⟨-, -, hlt, hprevious⟩ := h.linked.step d previous last hmark
    exact ⟨hlt, hprevious⟩
  ends d hd := by
    obtain ⟨items, hitems, hlength, -⟩ := h.linked.exists_leads hd
    refine ⟨items, hitems, ?_⟩
    have hreaches : (m.table budget).reaches d = true := hd
    rw [sequence?, if_pos hreaches, table, hitems.follow_eq hlength, List.append_nil]

variable {limit : Nat} {rows : List Row} {memory : List String} {s u : Session}

/-- If the room of a table is charged for within a limit of steps, then every moment of its filling is
sound, and the computation of the table ends at one of these moments. -/
theorem moments_sound (hlimit : 2 * limit < bound64)
    (h : (SearchM.charge limit (room (rows.map (Row.filler memory)) budget)).run s = .ok () u) :
    (∀ m, Moment.Occurs (rows.map (Row.filler memory)) budget m →
      m.Sound (rows.map (Row.filler memory)) budget) ∧
    ∃ m, Moment.Occurs (rows.map (Row.filler memory)) budget m ∧
      m.Ends limit (rows.map (Row.filler memory)) budget
        ((compute limit rows budget memory).run s) := by
  obtain ⟨-, hroom⟩ := room_eq hlimit (min_le_of_charge h)
  refine ⟨fun m hm => hm.kept.sound hroom, ?_⟩
  rw [compute, run_bind_of_ok h]
  exact Moment.later_rounds limit budget (Nat.zero_add budget) rfl u

/-- One of the rows has no cycles. The two fillers on the way from eleven to zero are the others. -/
theorem moments_sound_idle : ∃ rows : List Row, (∃ row ∈ rows, row.duration = 0) ∧ 2 * 100 < bound64 ∧
    (∃ u, (SearchM.charge 100 (room (rows.map (Row.filler [])) 3)).run {} = .ok () u) ∧
    ∃ last, Moment.Occurs (rows.map (Row.filler [])) 3 last ∧
      last.Sound (rows.map (Row.filler [])) 3 ∧
      ∃ items, Leads last.sweep.marks 11 items ∧ items.length = 2 := by
  let rows : List Row :=
    [⟨"NOP", 4, 1, ∅, true⟩, ⟨"EQU", 0, 0, ∅, true⟩, ⟨"CPI 8b", 7, 2, ∅, true⟩]
  have hcharge : (SearchM.charge 100 (room (rows.map (Row.filler [])) 3)).run {} =
      .ok () (Session.charged {} (room (rows.map (Row.filler [])) 3)) := by
    rw [SearchM.run_charge, if_neg (by decide)]
  have hcomputed : ∃ t v, (compute 100 rows 3 []).run {} = .ok t v :=
    exists_of_computed (by decide +kernel)
  obtain ⟨t, v, ht⟩ := hcomputed
  obtain ⟨hsound, last, hoccurs, hends⟩ := moments_sound (by decide) hcharge
  rw [ht] at hends
  cases hends
  have hsequence : ((last.table 3).sequence? 11).map List.length = some 2 := by
    rw [(run_compute_eq_ok ht).1]
    decide +kernel
  obtain ⟨items, hitems, hlength⟩ := Option.map_eq_some_iff.mp hsequence
  obtain ⟨way, hway, hsame⟩ := (hsound last hoccurs).ends 11 (reaches_of_sequence? hitems)
  obtain rfl : way = items := Option.some.inj (hsame.symm.trans hitems)
  exact ⟨rows, ⟨_, List.mem_cons_of_mem _ List.mem_cons_self, rfl⟩, by decide, ⟨_, hcharge⟩, last,
    hoccurs, hsound last hoccurs, way, hway, hlength⟩

end DelaySynth.Reach
