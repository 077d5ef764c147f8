import DelaySynth.Proofs.Checked.Tables
import DelaySynth.Proofs.Reach.Kept

/-!
# Checked computations

A checked computation changes a session and may fail as any search does. In addition it may come to a
result that its word does not hold, and then it has no answer. `InRange` says that this does not
happen, and it composes along `>>=` (`InRange.bind`). Steps saturate, and no routine depends on the
other counters of the statistics, so none of them is checked.

* `Checked.inRange_obtain`: tables, whether they are computed or found among those of the session.
-/

namespace DelaySynth

/-- Every kept table is the table of its key, and no larger than a limit. -/
def Session.Sized (c : Catalog) (limit : Nat) (s : Session) : Prop :=
  ∀ p ∈ s.tables, p.2 = Reach.ofKey c p.1 ∧ p.2.marks.size ≤ limit

namespace Checked

open SearchM Reach

/-- A search that has no answer if something is out of range. -/
abbrev CheckedM := OptionT SearchM

/-- What is there, or else no answer. -/
def demand {α : Type} (found? : Option α) : CheckedM α :=
  OptionT.mk (pure found?)

/-- From a session with `I`, the checked computation finds nothing out of range. It runs as the other
one does, which keeps `I` and returns what satisfies `P`. -/
def InRange {α : Type} (I : Session → Prop) (x : SearchM α) (x' : CheckedM α) (P : α → Prop) : Prop :=
  Agree (fun s s' => s = s' ∧ I s) (fun a found? => found? = some a ∧ P a) x x'.run

theorem run_demand_none_bind {α β : Type} (f : α → CheckedM β) :
    (demand none >>= f).run = pure none := rfl

namespace InRange

variable {α β : Type} {I : Session → Prop} {x : SearchM α} {x' : CheckedM α} {P Q : α → Prop}

theorem of_pure {a : α} (h : P a) : InRange I (pure a) (pure a) P :=
  Agree.of_pure ⟨rfl, h⟩

/-- What is not checked is in range. -/
theorem of_lift {E : SynthError → Session → Prop} (h : Ensures I E x P) : InRange I x (liftM x) P := by
  rintro s _ ⟨rfl, hs⟩
  have hrun : (liftM x : CheckedM α).run = x >>= fun a => pure (some a) := rfl
  rw [hrun, EStateM.run_bind]
  have := h s hs
  cases hx : x.run s with
  | ok a t =>
    rw [hx] at this
    exact .ok ⟨rfl, this.1⟩ ⟨rfl, this.2⟩
  | error e t =>
    rw [hx] at this
    exact .error ⟨rfl, this.1⟩

theorem mono (h : InRange I x x' P) (hPQ : ∀ a, P a → Q a) : InRange I x x' Q := by
  intro s s' hs
  have hrun := h s s' hs
  generalize x.run s = result, x'.run.run s' = result' at hrun
  cases hrun with
  | ok state value => exact .ok state ⟨value.1, hPQ _ value.2⟩
  | error state => exact .error state

theorem bind {f : α → SearchM β} {f' : α → CheckedM β} {R : β → Prop} (hx : InRange I x x' P)
    (hf : ∀ a, P a → InRange I (f a) (f' a) R) : InRange I (x >>= f) (x' >>= f') R := by
  unfold InRange
  rw [OptionT.run_bind]
  refine Agree.bind hx ?_
  rintro a _ ⟨rfl, ha⟩
  exact hf a ha

/-- What is demanded is there. -/
theorem demand_bind {a : α} {found? : Option α} {y : SearchM β} {f : α → CheckedM β} {R : β → Prop}
    (h : found? = some a) (hf : InRange I y (f a) R) : InRange I y (demand found? >>= f) R := by
  subst h
  exact hf

/-- A checked computation in range answers, from a session with `I`, as the other one does. -/
theorem run_eq (h : InRange I x x' P) {s : Session} (hs : I s) :
    x'.run.run s = (x >>= fun a => pure (some a)).run s := by
  have hrun := h s s ⟨rfl, hs⟩
  rw [EStateM.run_bind]
  generalize x.run s = result, x'.run.run s = result' at hrun
  cases hrun with
  | ok state value =>
    obtain ⟨rfl, -⟩ := state
    obtain ⟨rfl, -⟩ := value
    rfl
  | error state =>
    obtain ⟨rfl, -⟩ := state
    rfl

end InRange

/-! ## Steps of the session -/

variable {c : Catalog} {limit : Nat}

theorem ensures_record (f : Stats → Stats) :
    Ensures (Session.Sized c limit) (fun _ _ => True) (record f) fun _ => True :=
  .of_modify fun _ hs => hs

theorem ensures_recordLoop (width : CounterWidth) :
    Ensures (Session.Sized c limit) (fun _ _ => True) (recordLoop width) fun _ => True := by
  cases width with
  | wide => exact ensures_record fun s => { s with wideLoops := s.wideLoops + 1 }
  | narrow => exact ensures_record fun s => { s with narrowLoops := s.narrowLoops + 1 }

/-- What has been charged for is within the limit. -/
theorem ensures_charge (count : Nat) :
    Ensures (Session.Sized c limit) (fun _ _ => True) (charge limit count)
      fun _ => min count maxSteps ≤ limit := by
  intro s hs
  rw [run_charge]
  by_cases hlimit : limit < (s.charged count).stats.steps
  · rw [if_pos hlimit]
    exact ⟨hs, trivial⟩
  · rw [if_neg hlimit]
    have hle : min (s.stats.steps + count) maxSteps ≤ limit := Nat.le_of_not_lt hlimit
    exact ⟨hs, by omega⟩

theorem ensures_ofCatalog {α : Type} (x : Except CatalogError α) :
    Ensures (Session.Sized c limit) (fun _ _ => True) (ofCatalog x) fun a => x = .ok a := by
  cases x with
  | ok a => exact .of_pure rfl
  | error e => exact .of_throw fun _ _ => trivial

/-! ## Tables -/

/-- Plays up to `n` rounds, and no more once a round has marked nothing. -/
def rounds (limit : Nat) (fillers : List Instruction) : (n : Nat) → Reach → CheckedM Reach
  | 0, t => return t
  | n + 1, t => do
    charge limit (← demand (word (t.top + 1)))
    match ← demand (round fillers t) with
    | (t, true) => rounds limit fillers n t
    | (t, false) => return t

/-- The table of the sequences of at most `budget` fillers made from some rows. -/
def compute (limit : Nat) (rows : List Row) (budget : Nat) (memory : List String) :
    CheckedM Reach := do
  let fillers := rows.map (Row.filler memory)
  let bound := room fillers budget
  charge limit bound
  rounds limit fillers budget (start budget bound)

/-- The table of the fillers that a grant admits. -/
def obtain (keep : Bool) (limit : Nat) (catalog : Catalog) (key : TableKey) : CheckedM Reach := do
  match (← get).tables.lookup key with
  | some t =>
    record fun s => { s with memoHits := s.memoHits + 1 }
    return t
  | none =>
    let t ← compute limit (catalog.available key.granted) key.budget key.memory
    record fun s => { s with tablesComputed := s.tablesComputed + 1 }
    if keep then modify fun s => { s with tables := (key, t) :: s.tables }
    return t

theorem inRange_rounds {fillers : List Instruction} {budget n k : Nat} {t : Reach}
    (hlimit : 2 * limit < bound64) (hroom : min (room fillers budget) maxSteps ≤ limit)
    (ht : Layer fillers k t) (hsize : t.marks.size = room fillers budget) (hk : k + n = budget) :
    InRange (Session.Sized c limit) (Reach.rounds limit fillers n t) (rounds limit fillers n t)
      (· = fill fillers n t) := by
  obtain ⟨hle, hroom⟩ := room_eq hlimit hroom
  induction n generalizing k t with
  | zero => exact .of_pure rfl
  | succ n ih =>
    have htop := ht.top.lt_size
    have hround : round fillers t = some (t.round fillers) := by
      refine round_eq ht (by omega) ?_
      have hmul := Nat.mul_le_mul_right (longest fillers) (show k + 1 ≤ budget by omega)
      omega
    refine InRange.demand_bind (word_eq (by omega)) ?_
    refine (InRange.of_lift (ensures_charge _)).bind fun _ _ => ?_
    refine InRange.demand_bind hround ?_
    have hnext := ht.round
    have hsame := ht.size_round
    rw [fill]
    cases hcase : t.round fillers with
    | mk u changed =>
      rw [hcase] at hnext hsame
      cases changed with
      | true => exact ih hnext (hsame.trans hsize) (by omega)
      | false => exact .of_pure rfl

theorem inRange_compute (hlimit : 2 * limit < bound64) (rows : List Row) (budget : Nat)
    (memory : List String) :
    InRange (Session.Sized c limit) (Reach.compute limit rows budget memory)
      (compute limit rows budget memory) fun t =>
        t = ofFillers (rows.map (Row.filler memory)) budget ∧ t.marks.size ≤ limit := by
  refine (InRange.of_lift (ensures_charge _)).bind fun _ hroom => ?_
  refine (inRange_rounds hlimit hroom (layer_start (room_pos _ _)) (by simp [start]) ?_).mono ?_
  · exact Nat.zero_add budget
  · rintro _ rfl
    exact ⟨rfl, (size_ofFillers _ _).trans_le (room_eq hlimit hroom).1⟩

/-- The longest duration of a table has a place in it, so it fits a word with a sign. -/
theorem top_lt (hlimit : 2 * limit < bound64) {key : TableKey} {t : Reach} (ht : t = ofKey c key)
    (hsize : t.marks.size ≤ limit) : 2 * t.top < bound64 := by
  have htop : t.top < t.marks.size := by
    rw [ht]
    exact (layer_ofFillers _ _).top.lt_size
  omega

theorem inRange_obtain (hlimit : 2 * limit < bound64) (keep : Bool) (key : TableKey) :
    InRange (Session.Sized c limit) (Reach.obtain keep limit c key) (obtain keep limit c key)
      fun t => t = ofKey c key ∧ 2 * t.top < bound64 := by
  refine (InRange.of_lift (E := fun _ _ => True) .of_get).bind fun s hs => ?_
  cases hlookup : s.tables.lookup key with
  | some t =>
    obtain ⟨before, after, htables, -⟩ := List.lookup_eq_some_iff.mp hlookup
    obtain ⟨ht, hsize⟩ := hs (key, t) (by simp [htables])
    exact (InRange.of_lift (ensures_record _)).bind fun _ _ => .of_pure ⟨ht, top_lt hlimit ht hsize⟩
  | none =>
    refine (inRange_compute hlimit _ _ _).bind fun t hcomputed => ?_
    have ht : t = ofKey c key ∧ 2 * t.top < bound64 :=
      ⟨hcomputed.1, top_lt hlimit hcomputed.1 hcomputed.2⟩
    refine (InRange.of_lift (ensures_record _)).bind fun _ _ => ?_
    have hkeep : Ensures (Session.Sized c limit) (fun _ _ => True)
        (modify fun s => { s with tables := (key, t) :: s.tables } : SearchM PUnit)
        fun _ => True := by
      refine .of_modify fun u hu p hp => ?_
      rcases List.mem_cons.mp hp with rfl | hp
      · exact hcomputed
      · exact hu p hp
    cases keep with
    | false => exact .of_pure ht
    | true => exact (InRange.of_lift hkeep).bind fun _ _ => .of_pure ht

end Checked

end DelaySynth
