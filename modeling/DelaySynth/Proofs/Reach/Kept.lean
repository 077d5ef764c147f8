import DelaySynth.Proofs.Reach.Marks
import DelaySynth.Proofs.Runs
import DelaySynth.Search.LoopSearch

/-!
# Kept tables

A table is determined by the catalog and its key, so a session that keeps tables can be trusted as
long as each of them is the table of its key. Every computation of the search keeps sessions that way,
also when it fails.

* `SearchM.Finds`: what a search keeps, what it finds, and how it ends if it fails.
* `finds_obtain`: a table that a session answers with is the table of the key, whether it was
  computed or found.
-/

namespace DelaySynth

/-- The fillers that a grant admits. -/
def Catalog.fillers (c : Catalog) (granted : ResourceSet) (memory : List String) :
    List Instruction :=
  (c.available granted).map (Row.filler memory)

/-- The reach table of a key. -/
def Reach.ofKey (c : Catalog) (key : TableKey) : Reach :=
  Reach.ofFillers (c.fillers key.granted key.memory) key.budget

/-- Every kept table is the table of its key. -/
def Session.Faithful (c : Catalog) (s : Session) : Prop :=
  ∀ p ∈ s.tables, p.2 = Reach.ofKey c p.1

/-- The errors that end a search: an instruction that is missing, in one of the ways that `lacks`
admits, or more steps than the limit. -/
def SynthError.EndsSearch (limit : Nat) (lacks : CatalogError → Prop) : SynthError → Session → Prop
  | incompatibleCatalog e, _ => lacks e
  | searchLimit _, s => limit < s.stats.steps
  | invalidWindow _ _, _ | unknownTarget _, _ | timingMismatch _ _ _, _ => False

/-- A search that keeps the tables of a catalog faithful and finds what satisfies `P`. -/
abbrev SearchM.Finds {α : Type} (c : Catalog) (limit : Nat) (lacks : CatalogError → Prop)
    (x : SearchM α) (P : α → Prop) : Prop :=
  Ensures (Session.Faithful c) (SynthError.EndsSearch limit lacks) x P

variable {c : Catalog} {limit : Nat} {lacks : CatalogError → Prop}

theorem Session.faithful_of_empty {s : Session} (h : s.tables = []) : s.Faithful c := by
  intro p hp
  rw [h] at hp
  cases hp

theorem Session.faithful_empty : Session.Faithful c {} :=
  faithful_of_empty rfl

/-- A table that is found among the kept ones is the table of the key. -/
theorem Session.Faithful.of_lookup {s : Session} (hs : s.Faithful c) {key : TableKey} {t : Reach}
    (h : s.tables.lookup key = some t) : t = Reach.ofKey c key := by
  obtain ⟨before, after, htables, -⟩ := List.lookup_eq_some_iff.mp h
  exact hs (key, t) (by simp [htables])

namespace SearchM

theorem finds_record (f : Stats → Stats) : Finds c limit lacks (record f) fun _ => True :=
  .of_modify fun _ hs => hs

theorem finds_ofCatalog {α : Type} (x : Except CatalogError α) (hlacks : ∀ e, x = .error e → lacks e) :
    Finds c limit lacks (ofCatalog x) fun a => x = .ok a := by
  cases x with
  | ok a => exact .of_pure rfl
  | error e => exact .of_throw fun _ _ => hlacks e rfl

/-- A computation that runs out of steps has counted more of them than its limit. -/
theorem finds_charge (count : Nat) :
    Finds c limit lacks (charge limit count) fun _ => True := by
  intro s hs
  rw [run_charge]
  by_cases hlimit : limit < (s.charged count).stats.steps
  · rw [if_pos hlimit]
    exact ⟨hs, hlimit⟩
  · rw [if_neg hlimit]
    exact ⟨hs, trivial⟩

theorem finds_recordLoop (width : CounterWidth) :
    Finds c limit lacks (recordLoop width) fun _ => True := by
  cases width with
  | wide => exact finds_record fun s => { s with wideLoops := s.wideLoops + 1 }
  | narrow => exact finds_record fun s => { s with narrowLoops := s.narrowLoops + 1 }

end SearchM

namespace Reach

open SearchM

theorem finds_rounds (fillers : List Instruction) (n : Nat) (t : Reach) :
    Finds c limit lacks (rounds limit fillers n t) (· = fill fillers n t) := by
  induction n generalizing t with
  | zero => exact .of_pure rfl
  | succ n ih =>
    refine (finds_charge _).bind fun _ _ => ?_
    rw [fill]
    cases t.round fillers with
    | mk u changed =>
      cases changed with
      | true => exact ih u
      | false => exact .of_pure rfl

theorem finds_compute (rows : List Row) (budget : Nat) (memory : List String) :
    Finds c limit lacks (compute limit rows budget memory)
      (· = ofFillers (rows.map (Row.filler memory)) budget) :=
  (finds_charge _).bind fun _ _ => finds_rounds _ _ _

theorem finds_obtain (keep : Bool) (key : TableKey) :
    Finds c limit lacks (obtain keep limit c key) (· = ofKey c key) := by
  refine Ensures.of_get.bind fun s hs => ?_
  split
  · rename_i t ht
    exact (finds_record _).bind fun _ _ => .of_pure (hs.of_lookup ht)
  · refine (finds_compute _ _ _).bind fun t ht => (finds_record _).bind fun _ _ => ?_
    have hkeep : Finds c limit lacks
        (modify fun s => { s with tables := (key, t) :: s.tables } : SearchM PUnit)
        fun _ => True := by
      refine .of_modify fun u hu p hp => ?_
      rcases List.mem_cons.mp hp with rfl | hp
      · exact ht
      · exact hu p hp
    cases keep with
    | false => exact .of_pure ht
    | true => exact hkeep.bind fun _ _ => .of_pure ht

end Reach

end DelaySynth
