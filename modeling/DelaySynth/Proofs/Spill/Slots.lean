import DelaySynth.Proofs.Grant
import DelaySynth.Spill.Estimate

/-!
# Cells that hold saved registers

A register is saved in the first cell that the caller's list still offers, and the place in the list
goes to the register. So what has been saved and what is left make up the caller's list at any time,
and the fillers of the main part access nothing but what is left. A list may name one cell twice, and
then both are true of it: the cell has been used up at one place and is still offered at the other.

* `Spills.addresses_eq`: the addresses that are used, and then those that are left, are the caller's.
* `Row.cells_filler_subset`: a filler accesses cells that are left.
* `slots_exclusive`: if the caller's addresses name different cells then each saved register has a cell
  of its own, which the main part does not access.
* `slots_shared`: a list with two spellings of an address, by which one cell is used for two registers.
-/

namespace DelaySynth

/-- A memory cell: the value of its address, or the text of an address that has no value. -/
abbrev Cell := Nat ⊕ String

/-- The cell that an address names. -/
def Address.cell (text : String) : Cell :=
  match value? text with
  | some v => .inl v
  | none => .inr text

/-- The address that an instruction has as its operand. -/
def Instruction.address? (i : Instruction) : Option String :=
  match i.operand? with
  | some (.address text) => some text
  | _ => none

/-- The address that a piece of code has as its operand, if it is an instruction with one. -/
def Code.address? : Code → Option String
  | .instr i => i.address?
  | _ => none

/-- The addresses of the instructions of a group, in their order. -/
def Group.addresses (g : Group Code) : List String :=
  g.items.filterMap Code.address?

/-- The cells that an instruction of a row accesses: the one at its address, and the next one too if
the row needs two. -/
def Row.cells (row : Row) (i : Instruction) : List Cell :=
  match i.address?, row.needs.memoryCount with
  | none, _ => []
  | some _, 0 => []
  | some text, 1 => [Address.cell text]
  | some text, _ => Address.cell text :: ((Address.value? text).map fun v => .inl (v + 1)).toList

/-! ## Saving -/

@[simp] theorem Group.addresses_append (g : Group Code) (i : Instruction) :
    (g.append i).addresses = g.addresses ++ i.address?.toList := by
  cases h : i.address? <;> simp [addresses, append, Code.address?, h]

theorem Instruction.address?_instantiate {row : Row} {operand? : Option Operand} {text : String}
    (h : (row.instantiate operand?).address? = some text) : operand? = some (.address text) := by
  unfold address? Row.instantiate at h
  split at h
  · rename_i hoperand
    cases h
    split at hoperand
    · exact hoperand
    · cases hoperand
  · cases h

theorem Machine.operand?_of_address? {m : Machine} {template : String} {operand? : Option Operand}
    {i : Instruction} (h : m.instruction template operand? = .ok i) {text : String}
    (htext : i.address? = some text) : operand? = some (.address text) := by
  obtain ⟨row, -, rfl⟩ := instruction_eq_ok h
  exact Instruction.address?_instantiate htext

/-- An instruction without an operand has no address. -/
theorem Machine.address?_of_instruction {m : Machine} {template : String} {i : Instruction}
    (h : m.instruction template none = .ok i) : i.address? = none :=
  Option.eq_none_iff_forall_ne_some.mpr fun _ htext => nomatch operand?_of_address? h htext

theorem Machine.address?_of_store {m : Machine}
    (hplace : (Placeholder.find? m.target.storeTemplate).isSome = true) {address : String}
    {i : Instruction} (h : m.store address = .ok i) : i.address? = some address := by
  simp [Instruction.address?, operand?_of_instruction hplace h]

namespace Frame

variable {m : Machine} {f g : Frame} {freed : List Register}

theorem addresses_withPush {push : Instruction} (hpush : push.address? = none) :
    (f.withPush push).addresses = f.save.addresses := by
  unfold withPush
  split
  · rfl
  · simp [hpush]

/-- A step moves the first address that is left behind those that are used, or it leaves them alone. -/
theorem Step.addresses_eq (hplace : (Placeholder.find? m.target.storeTemplate).isSome = true)
    {outcome : SpillOutcome} (h : Step m f outcome g) :
    g.save.addresses ++ Resource.addresses g.resources =
      f.save.addresses ++ Resource.addresses f.resources := by
  cases h with
  | nothingToFree => rfl
  | infeasible => rfl
  | primary _ exchanged _ storeOk =>
    rw [addresses_exchange exchanged]
    simp [Machine.address?_of_store hplace storeOk]
  | copied _ exchanged _ outOk storeOk =>
    rw [addresses_exchange exchanged]
    simp [Machine.address?_of_store hplace storeOk, Machine.address?_of_instruction outOk]
  | stacked _ _ _ pushOk =>
    obtain ⟨_, -, hpush⟩ := Machine.instruction_of_mapM pushOk
    rw [addresses_withPush (Machine.address?_of_instruction hpush)]
    simp [Resource.addresses, Resource.register, Resource.address?]

/-- What has been used and what is left make up the list that the freeing started from. -/
theorem Spills.addresses_eq (hplace : (Placeholder.find? m.target.storeTemplate).isSome = true)
    (h : Spills m f freed g) : g.save.addresses ++ Resource.addresses g.resources =
      f.save.addresses ++ Resource.addresses f.resources := by
  induction h with
  | refl => rfl
  | tail before last success ih => exact ((step_of_run last).addresses_eq hplace).trans ih

end Frame

/-! ## Access -/

theorem Address.cell_of_value? {text : String} {v : Nat} (h : value? text = some v) :
    cell text = .inl v := by
  rw [cell, h]

theorem Address.adjacentPair?_eq_some {addresses : List String} {text : String}
    (h : adjacentPair? addresses = some text) : text ∈ addresses ∧
      ∃ v, value? text = some v ∧ ∃ next ∈ addresses, value? next = some (v + 1) := by
  refine ⟨List.mem_of_find?_eq_some h, ?_⟩
  have hpair := List.find?_some h
  cases hv : value? text with
  | none =>
    rw [hv] at hpair
    cases hpair
  | some v =>
    rw [hv] at hpair
    obtain ⟨next, hnext, hvalue⟩ := List.any_eq_true.mp hpair
    exact ⟨v, rfl, next, hnext, by simpa using hvalue⟩

/-- The address of a filler is the one that its row chooses. -/
theorem Row.fillerAddress?_of_filler {row : Row} {memory : List String} {text : String}
    (h : (row.filler memory).address? = some text) : row.fillerAddress? memory = some text := by
  unfold filler at h
  split at h
  · rename_i address _ haddress
    cases Instruction.address?_instantiate h
    exact haddress
  · cases Instruction.address?_instantiate h
  · cases Instruction.address?_instantiate h
  · cases Instruction.address?_instantiate h

/-- The cells that a filler accesses are among those that are left. -/
theorem Row.cells_filler_subset (row : Row) (memory : List String) :
    row.cells (row.filler memory) ⊆ memory.map Address.cell := by
  unfold cells
  split
  · exact List.nil_subset _
  · exact List.nil_subset _
  · rename_i text haddress hcount
    have hchosen := fillerAddress?_of_filler haddress
    rw [fillerAddress?, hcount] at hchosen
    simpa using ⟨text, List.mem_of_head? hchosen, rfl⟩
  · rename_i text haddress hnone hone
    have hchosen := fillerAddress?_of_filler haddress
    unfold fillerAddress? at hchosen
    split at hchosen
    · cases hchosen
    · contradiction
    · obtain ⟨hmem, v, hv, next, hnext, hvalue⟩ := Address.adjacentPair?_eq_some hchosen
      rw [hv]
      refine List.cons_subset.mpr ⟨List.mem_map_of_mem hmem, List.cons_subset.mpr ⟨?_, List.nil_subset _⟩⟩
      show (.inl (v + 1) : Cell) ∈ memory.map Address.cell
      rw [← Address.cell_of_value? hvalue]
      exact List.mem_map_of_mem hnext

theorem Code.mem_allLines {line : Line} {cs : List Code} (h : line ∈ allLines cs) :
    ∃ c ∈ cs, line ∈ c.lines := by
  induction cs with
  | nil => cases h
  | cons c cs ih =>
    rw [allLines] at h
    rcases List.mem_append.mp h with h | h
    · exact ⟨c, List.mem_cons_self, h⟩
    · obtain ⟨c', hc', h⟩ := ih h
      exact ⟨c', List.mem_cons_of_mem c hc', h⟩

/-- The control instructions of a loop access nothing. -/
theorem Loop.CountedBy.address?_eq_none {m : Machine} {depth : Nat} {c : Counter} {l : Loop Code}
    (h : l.CountedBy m depth c) :
    l.init.address? = none ∧ l.decrement.address? = none ∧ l.branch.address? = none := by
  refine ⟨?_, Machine.address?_of_instruction h.decrement, ?_⟩
  · refine Option.eq_none_iff_forall_ne_some.mpr fun text htext => ?_
    have hinit := Machine.operand?_of_address? h.init htext
    split at hinit <;> cases hinit
  · exact Option.eq_none_iff_forall_ne_some.mpr fun text htext =>
      nomatch Machine.operand?_of_address? h.branch htext

/-- An instruction of the main part is a filler under the whole grant, or it has no address. -/
theorem Admitted.offers_of_mem_lines {m : Machine} {memory : List String} {granted : ResourceSet}
    {enclosing : List Counter} {code : Code} (h : Admitted m memory granted enclosing code)
    {i : Instruction} (hi : Line.instr i ∈ code.lines) :
    m.catalog.Offers granted memory i ∨ i.address? = none := by
  induction h with
  | @group enclosing g fillers =>
    cases g with
    | mk items ordered =>
      rw [Code.lines, Group.lines] at hi
      obtain ⟨c, hc, hi⟩ := Code.mem_allLines hi
      obtain ⟨filler, rfl, row, hrow, husable, hneeds, rfl⟩ := fillers c hc
      rw [Code.lines, List.mem_singleton] at hi
      cases hi
      exact .inl ⟨row, hrow, husable, ResourceSet.subset_trans hneeds (ResourceSet.eraseAll_subset _), rfl⟩
  | @loop enclosing l c counted _ _ _ ih =>
    obtain ⟨hinit, hdecrement, hbranch⟩ := counted.address?_eq_none
    cases l with
    | mk init body decrement branch label iterations =>
      rw [Code.lines, Loop.lines] at hi
      simp only [List.mem_cons, List.mem_append, Line.instr.injEq, reduceCtorEq, false_or,
        List.not_mem_nil, or_false] at hi
      rcases hi with rfl | hi | rfl | rfl
      · exact .inr hinit
      · exact ih hi
      · exact .inr hdecrement
      · exact .inr hbranch

/-! ## Routines -/

namespace Synthesizer

/-- The addresses that the saving part of a routine stores at and those that are left for the main part
are the caller's. So if the caller's addresses name different cells, then each register is stored in a
cell of its own, and the fillers of the main part, which alone have addresses, access none of these
cells. -/
theorem slots_exclusive (y : Synthesizer) (hy : y.machine.target = I8085.target) (test : SpillTest)
    (r : Request) (hdistinct : ((Resource.addresses r.resources).map Address.cell).Nodup)
    {routine : Routine Code} {stats : Stats} (h : y.buildWith test r = .ok (some routine, stats)) :
    ∃ f s, (y.freeRegisters? test (r.innerWindow routine.ret?) (Register.count + 1)
        { resources := r.resources }).run {} = .ok (some f) s ∧
      routine.save.addresses ++ Resource.addresses f.resources = Resource.addresses r.resources ∧
      (routine.save.addresses.map Address.cell).Nodup ∧
      ∀ i, Line.instr i ∈ routine.main.lines →
        (i.address? = none ∨ y.machine.catalog.Offers (ResourceSet.ofResources f.resources)
          (Resource.addresses f.resources) i) ∧
        ∀ row : Row, i = row.filler (Resource.addresses f.resources) → ∀ cell ∈ row.cells i,
          cell ∉ routine.save.addresses.map Address.cell := by
  obtain ⟨f, hfound⟩ := routineFound_of_build h
  obtain ⟨freed, -, hspills⟩ := hfound.spills
  obtain ⟨s, hframe⟩ := hfound.frame
  obtain ⟨_, -, hmain⟩ := hfound.main
  have hplace : (Placeholder.find? y.machine.target.storeTemplate).isSome = true := by
    rw [hy]
    decide +kernel
  have haddresses : routine.save.addresses ++ Resource.addresses f.resources =
      Resource.addresses r.resources := by
    rw [hfound.save]
    exact hspills.addresses_eq hplace
  rw [← haddresses, List.map_append, List.nodup_append] at hdistinct
  obtain ⟨hsaved, -, hapart⟩ := hdistinct
  refine ⟨f, s, hframe, haddresses, hsaved, fun i hi => ⟨?_, ?_⟩⟩
  · exact (hmain.admitted.offers_of_mem_lines hi).symm
  · rintro row rfl cell hcell hmem
    exact hapart cell hmem cell (row.cells_filler_subset _ hcell) rfl

set_option maxRecDepth 100000 in
theorem slots_exclusive_neighbours : ∃ routine stats,
    I8085.synthesizer.build
      { min := 35933, max := 35943, resources := [.memory "2000H", .memory "0x2001"], budget := 12
        includeReturn := false } = .ok (some routine, stats) ∧
    ([Address.cell "2000H", Address.cell "0x2001"]).Nodup ∧
    (routine.save.addresses.map Address.cell).Nodup := by
  have hbuilt : (built? <| I8085.synthesizer.build
      { min := 35933, max := 35943, resources := [.memory "2000H", .memory "0x2001"], budget := 12
        includeReturn := false }).isSome = true := by
    decide +kernel
  obtain ⟨routine, stats, h⟩ := exists_of_isSome_built? hbuilt
  obtain ⟨f, s, -, -, hsaved, -⟩ := slots_exclusive I8085.synthesizer rfl I8085.synthesizer.spillTest
    { min := 35933, max := 35943, resources := [.memory "2000H", .memory "0x2001"], budget := 12
      includeReturn := false } (by decide +kernel) h
  exact ⟨routine, stats, h, by decide +kernel, hsaved⟩

set_option maxRecDepth 100000 in
/-- Two spellings of one address pass for two cells. The accumulator and another register are saved in
the same place, and the accumulator does not come back. -/
theorem slots_shared : ∃ routine stats,
    I8085.synthesizer.build
      { min := 35933, max := 35943, resources := [.memory "2000H", .memory "0x2000"], budget := 12
        includeReturn := false } = .ok (some routine, stats) ∧
    ¬(routine.save.addresses.map Address.cell).Nodup := by
  have hbuilt : (built? <| I8085.synthesizer.build
      { min := 35933, max := 35943, resources := [.memory "2000H", .memory "0x2000"], budget := 12
        includeReturn := false }).any
      (fun routine => decide ¬(routine.save.addresses.map Address.cell).Nodup) = true := by
    decide +kernel
  obtain ⟨routine, stats, h, hshared⟩ := exists_of_any_built? hbuilt
  exact ⟨routine, stats, h, of_decide_eq_true hshared⟩

end Synthesizer

end DelaySynth
