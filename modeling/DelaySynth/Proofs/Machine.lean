import DelaySynth.Code.Basic
import DelaySynth.Machine
import Mathlib.Data.List.Nodup

/-!
# Instructions of a machine

An instruction that a machine names is a row of its catalog with an operand, so the template of the
instruction leads back to the row.

* `instruction_eq_ok`: the row of an instruction.
* `Counter`: the registers that count a loop, as one value.
* `overhead_eq_ok`, `control_of_overhead`: the cost of a loop is that of its three instructions, and
  where one is known so are the others.
-/

namespace DelaySynth

theorem Catalog.lookup_eq_ok {c : Catalog} {template : String} {row : Row}
    (h : c.lookup template = .ok row) : row ∈ c.rows ∧ row.template = template := by
  unfold Catalog.lookup at h
  split at h
  · rename_i found hfound
    cases h
    exact ⟨List.mem_of_find?_eq_some hfound, by simpa using List.find?_some hfound⟩
  · cases h

theorem Catalog.lookup_eq_error {c : Catalog} {template : String} {e : CatalogError}
    (h : c.lookup template = .error e) :
    e = .notFound template ∧ ∀ row ∈ c.rows, row.template ≠ template := by
  unfold Catalog.lookup at h
  split at h
  · cases h
  · rename_i hnone
    cases h
    exact ⟨rfl, fun row hrow => by simpa using List.find?_eq_none.mp hnone row hrow⟩

/-- Where no two rows have the same template, each row is found under its own. -/
theorem Catalog.lookup_of_nodup {c : Catalog} (hrows : (c.rows.map Row.template).Nodup) {row : Row}
    (hrow : row ∈ c.rows) : c.lookup row.template = .ok row := by
  unfold Catalog.lookup
  cases hfind : c.rows.find? fun r => r.template == row.template with
  | none => simpa using List.find?_eq_none.mp hfind row hrow
  | some found =>
    have htemplate : found.template = row.template := by simpa using List.find?_some hfind
    have hmem := List.mem_of_find?_eq_some hfind
    rw [List.inj_on_of_nodup_map hrows hmem hrow htemplate]

namespace Machine

variable {m : Machine}

/-- The code is an instruction with a template that the machine's catalog lists. -/
def Names (m : Machine) (code : Code) : Prop :=
  ∃ i template operand?, code = .instr i ∧ m.instruction template operand? = .ok i

theorem instruction_eq_ok {template : String} {operand? : Option Operand} {i : Instruction}
    (h : m.instruction template operand? = .ok i) :
    ∃ row, m.catalog.lookup template = .ok row ∧ i = row.instantiate operand? := by
  unfold instruction at h
  cases hrow : m.catalog.lookup template with
  | error e =>
    rw [hrow] at h
    cases h
  | ok row =>
    rw [hrow] at h
    cases h
    exact ⟨row, rfl, rfl⟩

theorem template_of_instruction {template : String} {operand? : Option Operand} {i : Instruction}
    (h : m.instruction template operand? = .ok i) : i.template = template := by
  obtain ⟨row, hrow, rfl⟩ := instruction_eq_ok h
  exact (Catalog.lookup_eq_ok hrow).2

/-- The row that the catalog lists under the template of an instruction has its duration. -/
theorem lookup_of_instruction {template : String} {operand? : Option Operand} {i : Instruction}
    (h : m.instruction template operand? = .ok i) :
    ∃ row, m.catalog.lookup i.template = .ok row ∧ row.duration = i.duration := by
  obtain ⟨row, hrow, rfl⟩ := instruction_eq_ok h
  refine ⟨row, ?_, rfl⟩
  show m.catalog.lookup row.template = .ok row
  rw [(Catalog.lookup_eq_ok hrow).2]
  exact hrow

theorem duration_of_instruction {template : String} {operand? : Option Operand} {i : Instruction}
    {row : Row} (h : m.instruction template operand? = .ok i)
    (hrow : m.catalog.lookup template = .ok row) : i.duration = row.duration := by
  obtain ⟨row', hrow', rfl⟩ := instruction_eq_ok h
  obtain rfl := Except.ok.inj (hrow.symm.trans hrow')
  rfl

/-- An instruction keeps its operand if its template has a place for one. -/
theorem operand?_of_instruction {template : String} {operand : Operand} {i : Instruction}
    (hplace : (Placeholder.find? template).isSome = true)
    (h : m.instruction template (some operand) = .ok i) : i.operand? = some operand := by
  obtain ⟨row, hrow, rfl⟩ := instruction_eq_ok h
  have hrowPlace : row.placeholder?.isSome = true := by
    unfold Row.placeholder?
    rwa [(Catalog.lookup_eq_ok hrow).2]
  exact if_pos hrowPlace

/-- No instruction lasts as long as the bound on all rows. -/
theorem duration_lt_of_instruction {bound : Nat} (hrows : ∀ row ∈ m.catalog.rows, row.duration < bound)
    {template : String} {operand? : Option Operand} {i : Instruction}
    (h : m.instruction template operand? = .ok i) : i.duration < bound := by
  obtain ⟨row, hrow, rfl⟩ := instruction_eq_ok h
  exact hrows row (Catalog.lookup_eq_ok hrow).1

theorem overhead_eq_ok {width : CounterWidth} {counter : Register} {o : LoopOverhead}
    (h : m.overhead width counter = .ok o) : ∃ init decrement branch,
      m.catalog.lookup (m.target.initTemplate width counter) = .ok init ∧
      m.catalog.lookup (m.target.decrementTemplate width counter) = .ok decrement ∧
      m.catalog.lookup m.target.branchTemplate = .ok branch ∧
      o = ⟨init.duration, decrement.duration + branch.duration⟩ := by
  unfold overhead at h
  cases hinit : m.catalog.lookup (m.target.initTemplate width counter) with
  | error e => rw [hinit] at h; cases h
  | ok init =>
    cases hdecrement : m.catalog.lookup (m.target.decrementTemplate width counter) with
    | error e => rw [hinit, hdecrement] at h; cases h
    | ok decrement =>
      cases hbranch : m.catalog.lookup m.target.branchTemplate with
      | error e => rw [hinit, hdecrement, hbranch] at h; cases h
      | ok branch =>
        rw [hinit, hdecrement, hbranch] at h
        cases h
        exact ⟨init, decrement, branch, rfl, rfl, rfl, rfl⟩

/-- A catalog that does not tell the cost of a loop lacks a row. -/
theorem overhead_eq_error {width : CounterWidth} {counter : Register} {e : CatalogError}
    (h : m.overhead width counter = .error e) :
    ∃ template, e = .notFound template ∧ ∀ row ∈ m.catalog.rows, row.template ≠ template := by
  unfold overhead at h
  cases hinit : m.catalog.lookup (m.target.initTemplate width counter) with
  | error e' =>
    rw [hinit] at h
    cases h
    exact ⟨_, Catalog.lookup_eq_error hinit⟩
  | ok init =>
    cases hdecrement : m.catalog.lookup (m.target.decrementTemplate width counter) with
    | error e' =>
      rw [hinit, hdecrement] at h
      cases h
      exact ⟨_, Catalog.lookup_eq_error hdecrement⟩
    | ok decrement =>
      cases hbranch : m.catalog.lookup m.target.branchTemplate with
      | error e' =>
        rw [hinit, hdecrement, hbranch] at h
        cases h
        exact ⟨_, Catalog.lookup_eq_error hbranch⟩
      | ok branch =>
        rw [hinit, hdecrement, hbranch] at h
        cases h

/-- An instruction for the stack comes from the template that the target names for the register. -/
theorem instruction_of_mapM {template? : Option String} {i : Instruction}
    (h : (template?.mapM fun template => m.instruction template none) = .ok (some i)) :
    ∃ template, template? = some template ∧ m.instruction template none = .ok i := by
  cases template? with
  | none => cases h
  | some template =>
    have hmap : some <$> m.instruction template none = .ok (some i) := h
    cases hi : m.instruction template none with
    | error e =>
      rw [hi] at hmap
      cases hmap
    | ok j =>
      rw [hi] at hmap
      cases hmap
      exact ⟨template, rfl, hi⟩

theorem loopInit_eq_ok {width : CounterWidth} {counter : Register} {n : Nat} {i : Instruction}
    (h : m.loopInit width counter n = .ok i) :
    ∃ operand, m.instruction (m.target.initTemplate width counter) (some operand) = .ok i :=
  ⟨_, h⟩

/-- Where the cost of a loop is known, its control instructions are there as well. -/
theorem control_of_overhead {width : CounterWidth} {counter : Register} {o : LoopOverhead}
    (h : m.overhead width counter = .ok o) (n : Nat) (label : String) : ∃ init decrement branch,
      m.loopInit width counter n = .ok init ∧ m.decrement width counter = .ok decrement ∧
      m.branch label = .ok branch := by
  obtain ⟨init, decrement, branch, hinit, hdecrement, hbranch, -⟩ := overhead_eq_ok h
  have instruction {template : String} {row : Row} (hrow : m.catalog.lookup template = .ok row)
      (operand? : Option Operand) :
      m.instruction template operand? = .ok (row.instantiate operand?) := by
    unfold Machine.instruction
    rw [hrow]
    rfl
  exact ⟨_, _, _, instruction hinit _, instruction hdecrement _, instruction hbranch _⟩

end Machine

/-! ## Counters -/

/-- What counts a loop: a pair of registers, the high one first, or one register. -/
inductive Counter where
  /-- A pair that counts sixteen bits. -/
  | wide (high low : Register)
  /-- A register that counts eight bits. -/
  | narrow (r : Register)
deriving DecidableEq

namespace Counter

/-- The width of the counter. -/
def width : Counter → CounterWidth
  | wide _ _ => .wide
  | narrow _ => .narrow

/-- The register that names the counter in templates. -/
def name : Counter → Register
  | wide high _ => high
  | narrow r => r

/-- The registers that change while the counter counts. -/
def registers : Counter → List Register
  | wide high low => [high, low]
  | narrow r => [r]

end Counter

/-- The counters that a target offers for loops. -/
def Target.counters (t : Target) : List Counter :=
  t.wideCounters.map (fun p => .wide p.1 p.2) ++ t.narrowCounters.map .narrow

/-- Whatever the catalog lacks for loops is among the errors in `lacks`. -/
def Machine.LoopsLack (m : Machine) (lacks : CatalogError → Prop) : Prop :=
  ∀ c ∈ m.target.counters, ∀ e, m.overhead c.width c.name = .error e → lacks e

/-- The error tells of a template that no row of the catalog has. -/
def Catalog.Lacks (c : Catalog) (e : CatalogError) : Prop :=
  ∃ template, e = .notFound template ∧ ∀ row ∈ c.rows, row.template ≠ template

theorem Machine.loopsLack_lacks (m : Machine) : m.LoopsLack m.catalog.Lacks := by
  intro c _ e he
  exact overhead_eq_error he

end DelaySynth
