import DelaySynth.Proofs.Machine
import DelaySynth.Search.LoopSearch
import DelaySynth.Target.I8085

/-!
# Facts about the Intel 8085

What theorems about all machines ask of a machine, for the table and the target of the Intel 8085.
-/

namespace DelaySynth.I8085

/-- The Intel 8085 with the table that comes with it. -/
def machine : Machine := ⟨catalog, target⟩

/-- A synthesizer for the Intel 8085 with the tunable values that are not changed. -/
def synthesizer : Synthesizer := { machine }

set_option maxRecDepth 100000 in
theorem duration_bounds :
    ∀ row ∈ machine.catalog.rows, 0 < row.duration ∧ row.duration < bound32 := by
  decide +kernel

theorem duration_lt : ∀ row ∈ machine.catalog.rows, row.duration < bound32 :=
  fun row hrow => (duration_bounds row hrow).2

theorem maxIterations_lt (width : CounterWidth) : machine.target.maxIterations width < bound32 := by
  cases width <;> decide

/-- A text as a number, which is quicker to compare. -/
def textCode (s : String) : Nat :=
  s.toByteArray.data.toList.foldl (fun n byte => n * 0x100 + byte.toNat) 0

set_option maxRecDepth 100000 in
theorem nodup_templates : (machine.catalog.rows.map Row.template).Nodup := by
  have hcodes : (machine.catalog.rows.map fun row => textCode row.template).Nodup := by
    decide +kernel
  refine List.Nodup.of_map textCode ?_
  rwa [List.map_map]

theorem lookup_template {row : Row} (hrow : row ∈ machine.catalog.rows) :
    machine.catalog.lookup row.template = .ok row :=
  Catalog.lookup_of_nodup nodup_templates hrow

set_option maxRecDepth 100000 in
/-- The table lists the control instructions of every counter. -/
theorem exists_overhead : ∀ c ∈ machine.target.counters,
    ∃ o, machine.overhead c.width c.name = .ok o := by
  have hok : ∀ c ∈ machine.target.counters, (machine.overhead c.width c.name).isOk = true := by
    decide +kernel
  intro c hc
  have := hok c hc
  cases ho : machine.overhead c.width c.name with
  | ok o => exact ⟨o, rfl⟩
  | error e =>
    rw [ho] at this
    cases this

end DelaySynth.I8085
