import DelaySynth.Proofs.Reach.Marks
import DelaySynth.Proofs.Runs
import Mathlib.Algebra.Order.BigOperators.Group.List
import Mathlib.Algebra.Order.Ring.Nat

/-!
# What a reach table knows

A table is a search by breadth in place. `Within fillers n d` says that some sequence of at most `n`
fillers lasts `d` cycles, and `Layer fillers n t` that the table `t` has marked just these durations,
as far as it has room for them, each from one that needs one filler less.

A round goes through the durations from the longest down. `Grown` says what has been extended at some
point of it: what is marked on the way lies above, so that the round extends only what was marked
before it.

* `Layer.round`: a round takes a table from one layer to the next.
* `layer_ofFillers`: the finished table is at the layer of its budget, also if it stopped early.
* `reaches_ofFillers`: which durations it knows.
-/

namespace DelaySynth.Reach

variable {fillers : List Instruction} {n m d : Nat}

theorem totalDuration_instr (items : List Instruction) :
    Code.totalDuration (items.map Code.instr) = (items.map Instruction.duration).sum := by
  induction items with
  | nil => simp
  | cons i items ih => simp [ih]

/-! ## Durations of short sequences -/

/-- Some sequence of at most `n` fillers lasts `d` cycles. -/
def Within (fillers : List Instruction) (n d : Nat) : Prop :=
  ∃ items, items ⊆ fillers ∧ items.length ≤ n ∧ (items.map Instruction.duration).sum = d

theorem Within.mono (h : Within fillers n d) (hle : n ≤ m) : Within fillers m d := by
  obtain ⟨items, hsub, hlength, hsum⟩ := h
  exact ⟨items, hsub, Nat.le_trans hlength hle, hsum⟩

theorem within_nil : Within fillers n 0 :=
  ⟨[], List.nil_subset _, Nat.zero_le n, rfl⟩

theorem within_zero : Within fillers 0 d ↔ d = 0 := by
  constructor
  · rintro ⟨items, -, hlength, rfl⟩
    rw [List.length_eq_zero_iff.mp (Nat.le_zero.mp hlength)]
    rfl
  · rintro rfl
    exact within_nil

theorem Within.cons {filler : Instruction} (h : Within fillers n d) (hfiller : filler ∈ fillers) :
    Within fillers (n + 1) (d + filler.duration) := by
  obtain ⟨items, hsub, hlength, rfl⟩ := h
  refine ⟨filler :: items, List.cons_subset.mpr ⟨hfiller, hsub⟩, Nat.succ_le_succ hlength, ?_⟩
  rw [List.map_cons, List.sum_cons, Nat.add_comm]

/-- With one more filler the sequence is as short as before, or it has a last filler. -/
theorem Within.of_succ (h : Within fillers (n + 1) d) : Within fillers n d ∨
    ∃ filler ∈ fillers, ∃ e, Within fillers n e ∧ e + filler.duration = d := by
  obtain ⟨items, hsub, hlength, rfl⟩ := h
  cases items with
  | nil => exact .inl within_nil
  | cons filler items =>
    obtain ⟨hfiller, hsub⟩ := List.cons_subset.mp hsub
    refine .inr ⟨filler, hfiller, _, ⟨items, hsub, Nat.le_of_succ_le_succ hlength, rfl⟩, ?_⟩
    rw [List.map_cons, List.sum_cons, Nat.add_comm]

/-- Durations below a bound that one more filler does not add to are not added to by any number. -/
theorem Within.of_closed {bound : Nat}
    (hclosed : ∀ d < bound, Within fillers (n + 1) d → Within fillers n d)
    (h : Within fillers m d) (hd : d < bound) : Within fillers n d := by
  induction m generalizing d with
  | zero => exact h.mono (Nat.zero_le n)
  | succ m ih =>
    rcases h.of_succ with h | ⟨filler, hfiller, e, he, rfl⟩
    · exact ih h hd
    · exact hclosed _ hd ((ih he (by omega)).cons hfiller)

/-! ## What a round has extended -/

theorem Reached.lt_size {marks : Array Mark} (h : Reached marks d) : d < marks.size := by
  by_contra hge
  rw [Reached, Array.getD_eq_getD_getElem?, Array.getElem?_eq_none (by omega)] at h
  cases h

/-- From the marks `old` a round has come to `s` by extending every base that has been paired with a
filler. -/
structure Grown (old : Array Mark) (paired : Nat → Instruction → Prop) (s : Sweep) : Prop where
  size : s.marks.size = old.size
  kept : ∀ d, Reached old d → s.marks.getD d .unreached = old.getD d .unreached
  added : ∀ d, Reached s.marks d → Reached old d ∨ ∃ base filler, paired base filler ∧
    base + filler.duration = d ∧ s.marks.getD d .unreached = .step base filler
  extended : ∀ base filler, paired base filler → base + filler.duration < old.size →
    Reached s.marks (base + filler.duration)
  top : Reached s.marks s.top
  le_top : ∀ d, Reached s.marks d → d ≤ s.top
  unchanged : s.changed = false → s.marks = old

namespace Grown

variable {old : Array Mark} {paired paired' : Nat → Instruction → Prop} {s : Sweep}

theorem reached (h : Grown old paired s) (hd : Reached old d) : Reached s.marks d := by
  rw [Reached, h.kept d hd]
  exact hd

theorem congr (h : Grown old paired s) (heq : ∀ base filler, paired base filler ↔ paired' base filler) :
    Grown old paired' s := by
  have : paired = paired' := funext₂ fun base filler => propext (heq base filler)
  exact this ▸ h

/-- One extension pairs a base with a filler. -/
theorem extend (h : Grown old paired s) (base : Nat) (filler : Instruction) :
    Grown old (fun b f => paired b f ∨ b = base ∧ f = filler) (Sweep.extend base s filler) := by
  constructor
  · exact (Sweep.size_extend base s filler).trans h.size
  · exact fun d hd => (Sweep.getD_extend_of_reached (h.reached hd)).trans (h.kept d hd)
  · intro d hd
    rcases Sweep.of_reached_extend hd with hold | ⟨-, hsum, hmark⟩
    · rw [Sweep.getD_extend_of_reached hold]
      rcases h.added d hold with hd | ⟨b, f, hbf, hsum, hstep⟩
      · exact .inl hd
      · exact .inr ⟨b, f, .inl hbf, hsum, hstep⟩
    · exact .inr ⟨base, filler, .inr ⟨rfl, rfl⟩, hsum, hmark⟩
  · rintro b f (hbf | ⟨rfl, rfl⟩) hroom
    · exact Sweep.reached_extend_of_reached (h.extended b f hbf hroom)
    · exact Sweep.reached_extend (h.size.symm ▸ hroom)
  · rcases Sweep.extend_cases base s filler with ⟨hlt, -, hextend⟩ | ⟨-, hextend⟩
    · rw [hextend]
      refine (reached_setIfInBounds hlt).mpr ?_
      rcases Nat.le_total s.top (base + filler.duration) with hle | hle
      · exact .inl (Nat.max_eq_right hle)
      · rw [Nat.max_eq_left hle]
        exact .inr h.top
    · rw [hextend]
      exact h.top
  · exact fun d hd => Sweep.le_top_extend h.le_top hd
  · intro hunchanged
    rcases Sweep.extend_cases base s filler with ⟨-, -, hextend⟩ | ⟨-, hextend⟩
    · rw [hextend] at hunchanged
      cases hunchanged
    · rw [hextend] at hunchanged ⊢
      exact h.unchanged hunchanged

theorem foldl_extend (h : Grown old paired s) (base : Nat) (added : List Instruction) :
    Grown old (fun b f => paired b f ∨ b = base ∧ f ∈ added)
      (added.foldl (Sweep.extend base) s) := by
  induction added generalizing paired s with
  | nil => exact h.congr (by simp)
  | cons filler added ih =>
    refine (ih (h.extend base filler)).congr fun b f => ?_
    simp only [List.mem_cons]
    tauto

/-- The round extends the marked durations from `n` on down to zero. What it has marked above, it has
marked from bases that are not below `n`, so it finds there what was marked before. -/
theorem down (h : Grown old (fun b f => n ≤ b ∧ Reached old b ∧ f ∈ fillers) s) :
    Grown old (fun b f => Reached old b ∧ f ∈ fillers) (Sweep.down fillers n s) := by
  induction n generalizing s with
  | zero => exact h.congr (by simp)
  | succ n ih =>
    have hbase : Reached s.marks n ↔ Reached old n := by
      refine ⟨fun hn => ?_, h.reached⟩
      rcases h.added n hn with hn | ⟨b, f, ⟨hle, -⟩, hsum, -⟩
      · exact hn
      · omega
    have hsucc (b : Nat) : n ≤ b ↔ n + 1 ≤ b ∨ b = n := by omega
    apply ih
    unfold Sweep.extendAll
    split
    · rename_i hn
      refine (h.foldl_extend n fillers).congr fun b f => ?_
      rw [hsucc]
      have := hbase.mp hn
      grind
    · rename_i hn
      refine h.congr fun b f => ?_
      rw [hsucc]
      have := mt hbase.mpr hn
      grind

end Grown

/-! ## Layers -/

/-- The table has marked the durations of the sequences of at most `n` fillers for which it has room,
and every mark leads to a duration that needs one filler less. -/
structure Layer (fillers : List Instruction) (n : Nat) (t : Reach) : Prop where
  reached : ∀ d, Reached t.marks d ↔ d < t.marks.size ∧ Within fillers n d
  shorter : ∀ d previous last, t.marks.getD d .unreached = .step previous last →
    ∀ k, Within fillers k d → ∃ j, k = j + 1 ∧ Within fillers j previous
  top : Reached t.marks t.top
  le_top : ∀ d, Reached t.marks d → d ≤ t.top

theorem reached_start {budget bound : Nat} (hbound : 0 < bound) :
    Reached (start budget bound).marks d ↔ d = 0 := by
  rw [start, Reached, getD_setIfInBounds (by simpa using hbound)]
  split
  · simp [*, isReached]
  · rename_i hne
    rw [Array.getD_eq_getD_getElem?, Array.getElem?_replicate]
    split <;> simp [hne, isReached]

theorem layer_start {budget bound : Nat} (hbound : 0 < bound) :
    Layer fillers 0 (start budget bound) := by
  have hsize : (start budget bound).marks.size = bound := by simp [start]
  constructor
  · intro d
    rw [reached_start hbound, within_zero, hsize]
    constructor
    · rintro rfl
      exact ⟨hbound, rfl⟩
    · exact fun h => h.2
  · intro d previous last hd
    have hreached : Reached (start budget bound).marks d := by
      rw [Reached, hd]
      rfl
    obtain rfl := (reached_start hbound).mp hreached
    rw [start, getD_setIfInBounds (by simpa using hbound), if_pos rfl] at hd
    cases hd
  · exact (reached_start hbound).mpr rfl
  · intro d hd
    rw [(reached_start hbound).mp hd]
    exact Nat.zero_le _

theorem Layer.grown {t : Reach} (h : Layer fillers n t) :
    Grown t.marks (fun b f => Reached t.marks b ∧ f ∈ fillers)
      (Sweep.down fillers (t.top + 1) ⟨t.marks, t.top, false⟩) := by
  apply Grown.down
  exact
    { size := rfl
      kept := fun _ _ => rfl
      added := fun _ hd => .inl hd
      extended := fun base _ ⟨hle, hbase, _⟩ => absurd (h.le_top base hbase) (by omega)
      top := h.top
      le_top := h.le_top
      unchanged := fun _ => rfl }

theorem Layer.round {t : Reach} (h : Layer fillers n t) :
    Layer fillers (n + 1) (t.round fillers).1 := by
  have hg := h.grown
  refine ⟨fun d => ?_, fun d previous last hd k hk => ?_, hg.top, hg.le_top⟩
  · show Reached (Sweep.down _ _ _).marks d ↔ d < (Sweep.down _ _ _).marks.size ∧ _
    rw [hg.size]
    constructor
    · intro hd
      refine ⟨hg.size ▸ hd.lt_size, ?_⟩
      rcases hg.added d hd with hd | ⟨b, f, ⟨hb, hf⟩, rfl, -⟩
      · exact ((h.reached d).mp hd).2.mono (Nat.le_succ n)
      · exact ((h.reached b).mp hb).2.cons hf
    · rintro ⟨hlt, hd⟩
      rcases hd.of_succ with hd | ⟨f, hf, e, he, rfl⟩
      · exact hg.reached ((h.reached d).mpr ⟨hlt, hd⟩)
      · exact hg.extended e f ⟨(h.reached e).mpr ⟨by omega, he⟩, hf⟩ hlt
  · have hreached : Reached (Sweep.down fillers (t.top + 1) ⟨t.marks, t.top, false⟩).marks d := by
      rw [Reached]
      rw [show (Sweep.down _ _ _).marks.getD d _ = _ from hd]
      rfl
    by_cases hold : Reached t.marks d
    · exact h.shorter d previous last ((hg.kept d hold).symm.trans hd) k hk
    · obtain ⟨b, f, ⟨hb, -⟩, -, hstep⟩ := (hg.added d hreached).resolve_left hold
      cases hstep.symm.trans hd
      -- What is marked in this round is no duration of `n` fillers, and its base is one.
      have hlt : n < k := by
        by_contra hle
        exact hold ((h.reached d).mpr ⟨hg.size ▸ hreached.lt_size, hk.mono (by omega)⟩)
      obtain ⟨j, rfl⟩ : ∃ j, k = j + 1 := ⟨k - 1, by omega⟩
      exact ⟨j, rfl, ((h.reached _).mp hb).2.mono (by omega)⟩

theorem Layer.size_round {t : Reach} (h : Layer fillers n t) :
    (t.round fillers).1.marks.size = t.marks.size :=
  h.grown.size

/-- Once a round has marked nothing, the table is at every later layer as well. -/
theorem Layer.of_unchanged {t : Reach} (h : Layer fillers n t)
    (hround : (t.round fillers).2 = false) (hle : n ≤ m) :
    Layer fillers m (t.round fillers).1 := by
  have hnext := h.round
  have hmarks : (t.round fillers).1.marks = t.marks := h.grown.unchanged hround
  refine ⟨fun d => ?_, hnext.shorter, hnext.top, hnext.le_top⟩
  rw [hmarks, h.reached]
  refine ⟨fun ⟨hlt, hd⟩ => ⟨hlt, hd.mono hle⟩, fun ⟨hlt, hd⟩ => ⟨hlt, hd.of_closed ?_ hlt⟩⟩
  intro e he hsucc
  have := (hnext.reached e).mpr ⟨by rwa [hmarks], hsucc⟩
  rw [hmarks] at this
  exact ((h.reached e).mp this).2

theorem Layer.fill {t : Reach} (k : Nat) (h : Layer fillers n t) :
    Layer fillers (n + k) (fill fillers k t) ∧ (Reach.fill fillers k t).marks.size = t.marks.size := by
  induction k generalizing n t with
  | zero => exact ⟨h, rfl⟩
  | succ k ih =>
    have hround := h.round
    have hsize := h.size_round
    have hstop (hround : (t.round fillers).2 = false) := h.of_unchanged hround (Nat.le_add_right n (k + 1))
    rw [Reach.fill]
    cases hcase : t.round fillers with
    | mk u changed =>
      rw [hcase] at hround hsize hstop
      cases changed with
      | true =>
        obtain ⟨hlayer, hfill⟩ := ih hround
        exact ⟨by rwa [Nat.add_assoc, Nat.add_comm 1] at hlayer, hfill.trans hsize⟩
      | false => exact ⟨hstop rfl, hsize⟩

theorem room_pos (fillers : List Instruction) (budget : Nat) : 0 < room fillers budget := by
  simp only [room, SearchM.maxSteps, bound64]
  omega

theorem layer_ofFillers (fillers : List Instruction) (budget : Nat) :
    Layer fillers budget (ofFillers fillers budget) := by
  have h : Layer fillers (0 + budget) (ofFillers fillers budget) :=
    ((layer_start (room_pos fillers budget)).fill budget).1
  rwa [Nat.zero_add] at h

theorem size_ofFillers (fillers : List Instruction) (budget : Nat) :
    (ofFillers fillers budget).marks.size = room fillers budget := by
  have h : (ofFillers fillers budget).marks.size =
      (start budget (room fillers budget)).marks.size :=
    ((layer_start (room_pos fillers budget)).fill budget).2
  rw [h, start, Array.size_setIfInBounds, Array.size_replicate]

/-- A table knows the durations of the sequences that its budget admits, as far as it has room. -/
theorem reaches_ofFillers {budget : Nat} : (ofFillers fillers budget).reaches d = true ↔
    d < room fillers budget ∧ Within fillers budget d := by
  rw [← size_ofFillers]
  exact (layer_ofFillers fillers budget).reached d

end DelaySynth.Reach
