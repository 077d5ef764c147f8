import DelaySynth.Proofs.Reach.Kept

/-!
# Queries for reach tables

A session answers a query with the table that it keeps for the key, or else it computes the table.

* `run_obtain_of_some`, `run_obtain_of_none`: what a query does to the session.
* `FromScratch`: the table that a new session computes for a key, which is always the same one.
-/

namespace DelaySynth

open SearchM

/-- The session when a table has been found among the kept ones. -/
def Session.hit (s : Session) : Session :=
  { s with stats := { s.stats with memoHits := s.stats.memoHits + 1 } }

/-- The session when a table has been computed. -/
def Session.computed (keep : Bool) (key : TableKey) (t : Reach) (s : Session) : Session where
  stats := { s.stats with tablesComputed := s.stats.tablesComputed + 1 }
  tables := if keep then (key, t) :: s.tables else s.tables

theorem Session.Faithful.computed {c : Catalog} {s : Session} (h : s.Faithful c) (keep : Bool)
    (key : TableKey) : (s.computed keep key (Reach.ofKey c key)).Faithful c := by
  cases keep with
  | false => exact h
  | true =>
    intro p hp
    rcases List.mem_cons.mp hp with rfl | hp
    · rfl
    · exact h p hp

namespace Reach

variable {keep : Bool} {limit : Nat} {c : Catalog} {key : TableKey} {s u : Session} {t : Reach}

/-- The computation of the table for a key. -/
abbrev computeFor (limit : Nat) (c : Catalog) (key : TableKey) : SearchM Reach :=
  compute limit (c.available key.granted) key.budget key.memory

theorem run_obtain_of_some (h : s.tables.lookup key = some t) :
    (obtain keep limit c key).run s = .ok t s.hit := by
  unfold obtain
  rw [EStateM.run_bind, EStateM.run_get]
  simp only [h]
  rfl

/-- A table that is not kept is computed. It is kept then if the computation does not fail. -/
theorem run_obtain_of_none (h : s.tables.lookup key = none) :
    (obtain keep limit c key).run s =
      match (computeFor limit c key).run s with
      | .ok t u => .ok t (u.computed keep key t)
      | .error e u => .error e u := by
  unfold obtain
  rw [EStateM.run_bind, EStateM.run_get]
  simp only [h]
  rw [EStateM.run_bind]
  cases (computeFor limit c key).run s with
  | error e u => rfl
  | ok t u => cases keep <;> rfl

theorem eq_ofKey_of_computeFor (hs : s.Faithful c) (h : (computeFor limit c key).run s = .ok t u) :
    t = ofKey c key := by
  have hfinds : Finds c limit (fun _ => True) (computeFor limit c key) (· = ofKey c key) :=
    finds_compute _ _ _
  exact (hfinds.of_ok hs h).2

theorem eq_ofKey_of_obtain (hs : s.Faithful c) (h : (obtain keep limit c key).run s = .ok t u) :
    t = ofKey c key := by
  have hfinds : Finds c limit (fun _ => True) (obtain keep limit c key) (· = ofKey c key) :=
    finds_obtain _ _
  exact (hfinds.of_ok hs h).2

/-! ## Tables from scratch -/

/-- The largest number of steps is a limit that stops nothing. -/
theorem run_charge_maxSteps (count : Nat) (s : Session) :
    (charge maxSteps count).run s = .ok () (s.charged count) := by
  have hle : (s.charged count).stats.steps ≤ maxSteps := Nat.min_le_right _ _
  rw [run_charge, if_neg (Nat.not_lt.mpr hle)]

theorem exists_run_rounds (fillers : List Instruction) (n : Nat) (t : Reach) (s : Session) :
    ∃ t' u, (rounds maxSteps fillers n t).run s = .ok t' u := by
  induction n generalizing t s with
  | zero => exact ⟨t, s, rfl⟩
  | succ n ih =>
    rw [rounds, run_bind_of_ok (run_charge_maxSteps _ _)]
    cases t.round fillers with
    | mk u changed =>
      cases changed with
      | true => exact ih u _
      | false => exact ⟨u, _, rfl⟩

theorem exists_run_compute (rows : List Row) (budget : Nat) (memory : List String) (s : Session) :
    ∃ t u, (compute maxSteps rows budget memory).run s = .ok t u := by
  unfold compute
  simp only
  rw [run_bind_of_ok (run_charge_maxSteps _ _)]
  exact exists_run_rounds _ _ _ _

/-- The table is what computing it in a new session yields, whatever the limit is. -/
structure FromScratch (c : Catalog) (key : TableKey) (t : Reach) : Prop where
  returned : ∃ u, (computeFor maxSteps c key).run {} = .ok t u
  unique : ∀ {limit t' u}, (computeFor limit c key).run {} = .ok t' u → t' = t

theorem fromScratch_ofKey (c : Catalog) (key : TableKey) : FromScratch c key (ofKey c key) := by
  obtain ⟨t, u, hrun⟩ := exists_run_compute (c.available key.granted) key.budget key.memory {}
  obtain rfl : t = ofKey c key := eq_ofKey_of_computeFor Session.faithful_empty hrun
  exact ⟨⟨u, hrun⟩, eq_ofKey_of_computeFor Session.faithful_empty⟩

end Reach

end DelaySynth
