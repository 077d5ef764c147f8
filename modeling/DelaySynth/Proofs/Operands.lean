import DelaySynth.Proofs.Spill.Slots

/-!
# Operands of fillers

The bits of the grant decide which rows may be used as fillers, and the list of addresses decides what
these access. Both are computed from the list of resources that the freeing of registers ends with: a
row that needs a cell is admitted only if the list has an address, and one that needs two only if two
addresses lie side by side. So a filler with a place for an address always has one, and the list holds
it at the same place as the caller's list, since freeing a register puts that register in the place of
a cell and moves nothing.

* `KeptCell`: a cell that the caller offers and that is left.
* `Frame.Spills.keptCell`: all addresses that are left belong to such cells.
* `Row.exists_fillerAddress?`: a row that is admitted finds the address that it needs.
* `operands_granted`: what this means for the fillers of a routine.
-/

namespace DelaySynth

/-! ## Values of addresses -/

theorem Text.natural?_lt {base bound n : Nat} {cs : List Char}
    (h : natural? base bound cs = some n) : n < bound := by
  unfold natural? at h
  exact of_decide_eq_true (Option.filter_eq_some_iff.mp h).2

/-- An address has a value of 32 bits. -/
theorem Address.value?_lt {text : String} {v : Nat} (h : value? text = some v) : v < bound32 := by
  unfold value? at h
  simp only at h
  split at h
  · exact Text.natural?_lt h
  · exact Text.natural?_lt h
  · split at h
    · exact Text.natural?_lt h
    · exact Text.natural?_lt h
    · exact Text.natural?_lt h

/-! ## Cells that are left -/

theorem Resource.address?_eq_some {p : Resource} {address : String}
    (h : p.address? = some address) : p = .memory address := by
  unfold Resource.address? at h
  split at h
  · cases h
    rfl
  · cases h

/-- The first list offers the cell at an address, and the second one still does at the same place. -/
def KeptCell (rs qs : List Resource) (address : String) : Prop :=
  ∃ k : Nat, rs[k]? = some (.memory address) ∧ qs[k]? = some (.memory address)

namespace Frame

variable {m : Machine} {f g : Frame} {freed : List Register} {k : Nat} {address : String}

/-- The exchange puts a register in the place of a cell, and all other places stay as they are. -/
theorem exchangeMemory?_getElem? {name cell : String} {rs qs : List Resource}
    (h : exchangeMemory? name rs = some (cell, qs)) (hk : qs[k]? = some (.memory address)) :
    rs[k]? = some (.memory address) := by
  obtain ⟨before, p, after, rfl, rfl, -, -⟩ := exchangeMemory?_eq_some h
  rcases Nat.lt_trichotomy k before.length with hlt | rfl | hgt
  · rw [List.getElem?_append_left hlt] at hk ⊢
    exact hk
  · rw [List.getElem?_append_right (Nat.le_refl _), Nat.sub_self] at hk
    cases hk
  · obtain ⟨j, rfl⟩ : ∃ j, k = before.length + (j + 1) := ⟨k - before.length - 1, by omega⟩
    rw [List.getElem?_append_right (by omega), Nat.add_sub_cancel_left] at hk ⊢
    exact hk

theorem Step.getElem? {outcome : SpillOutcome} (h : Step m f outcome g)
    (hk : g.resources[k]? = some (.memory address)) : f.resources[k]? = some (.memory address) := by
  cases h with
  | nothingToFree => exact hk
  | infeasible => exact hk
  | primary _ exchanged => exact exchangeMemory?_getElem? exchanged hk
  | copied _ exchanged => exact exchangeMemory?_getElem? exchanged hk
  | stacked =>
    by_cases hlt : k < f.resources.length
    · rwa [List.getElem?_append_left hlt] at hk
    · rw [List.getElem?_append_right (Nat.le_of_not_lt hlt)] at hk
      have hregister := List.mem_singleton.mp (List.mem_of_getElem? hk)
      cases hregister

theorem Spills.getElem? (h : Spills m f freed g) (hk : g.resources[k]? = some (.memory address)) :
    f.resources[k]? = some (.memory address) := by
  induction h with
  | refl => exact hk
  | tail before last success ih => exact ih ((step_of_run last).getElem? hk)

theorem Spills.keptCell (h : Spills m f freed g) (haddress : address ∈ Resource.addresses g.resources) :
    KeptCell f.resources g.resources address := by
  obtain ⟨p, hp, hoffers⟩ := List.mem_filterMap.mp haddress
  obtain rfl := Resource.address?_eq_some hoffers
  obtain ⟨k, hk⟩ := List.mem_iff_getElem?.mp hp
  exact ⟨k, h.getElem? hk, hk⟩

end Frame

/-! ## Rows that are admitted -/

namespace ResourceSet

variable {needs : ResourceSet} {rs : List Resource}

theorem memoryCount_le_two (s : ResourceSet) : s.memoryCount ≤ 2 :=
  Nat.add_le_add (Bool.toNat_le _) (Bool.toNat_le _)

/-- A grant has a bit for memory only if the list has an address. -/
theorem addresses_ne_nil_of_subset (h : needs ⊆ ofResources rs) (hcount : 1 ≤ needs.memoryCount) :
    Resource.addresses rs ≠ [] := by
  intro hnil
  have hpair : ¬(Address.adjacentPair? []).isSome = true := by decide
  have hnone (i : Nat) (hi : i = memoryBit ∨ i = pairBit) : needs.bits.getLsbD i = false := by
    rw [Bool.eq_false_iff]
    intro hbit
    have hgranted := (getLsbD_ofResources (by rcases hi with rfl | rfl <;> decide)).mp
      (subset_iff.mp h i hbit)
    rw [hnil] at hgranted
    rcases hgranted with ⟨-, hne⟩ | ⟨-, hsome⟩ | ⟨hstack, -⟩
    · exact hne rfl
    · exact hpair hsome
    · rcases hi with rfl | rfl <;> cases hstack
  unfold memoryCount at hcount
  rw [hnone memoryBit (.inl rfl), hnone pairBit (.inr rfl)] at hcount
  cases hcount

/-- A grant has the bit for a second cell only if two addresses lie side by side. -/
theorem isSome_adjacentPair?_of_subset (h : needs ⊆ ofResources rs) (hcount : needs.memoryCount = 2) :
    (Address.adjacentPair? (Resource.addresses rs)).isSome = true := by
  have hbit : needs.bits.getLsbD pairBit = true := by
    unfold memoryCount at hcount
    have hfirst := Bool.toNat_le (needs.bits.getLsbD memoryBit)
    cases hpair : needs.bits.getLsbD pairBit with
    | true => rfl
    | false =>
      rw [hpair, Bool.toNat_false] at hcount
      omega
  rcases (getLsbD_ofResources (by decide)).mp (subset_iff.mp h pairBit hbit) with
    ⟨hother, -⟩ | ⟨-, hsome⟩ | ⟨hother, -⟩
  · cases hother
  · exact hsome
  · cases hother

end ResourceSet

namespace Row

variable {row : Row} {memory : List String}

/-- Where the grant admits a row that accesses memory, the list has the address that the row needs. -/
theorem exists_fillerAddress? {rs : List Resource} (h : row.needs ⊆ ResourceSet.ofResources rs)
    (hcount : 1 ≤ row.needs.memoryCount) : ∃ address ∈ Resource.addresses rs,
      row.fillerAddress? (Resource.addresses rs) = some address ∧
      (row.needs.memoryCount = 2 → ∃ v, Address.value? address = some v ∧
        ∃ next ∈ Resource.addresses rs, Address.value? next = some (v + 1)) := by
  unfold fillerAddress?
  split
  · omega
  · rename_i hone
    obtain ⟨address, rest, haddresses⟩ :=
      List.exists_cons_of_ne_nil (ResourceSet.addresses_ne_nil_of_subset h hcount)
    rw [haddresses]
    exact ⟨address, List.mem_cons_self, rfl, by omega⟩
  · rename_i hzero hone
    have htwo : row.needs.memoryCount = 2 := by
      have hle := row.needs.memoryCount_le_two
      have hne : row.needs.memoryCount ≠ 1 := hone
      omega
    obtain ⟨address, haddress⟩ :=
      Option.isSome_iff_exists.mp (ResourceSet.isSome_adjacentPair?_of_subset h htwo)
    obtain ⟨hmem, hneighbour⟩ := Address.adjacentPair?_eq_some haddress
    exact ⟨address, hmem, haddress, fun _ => hneighbour⟩

theorem operand?_filler (hplace : row.placeholder? = some .word) {address : String}
    (haddress : row.fillerAddress? memory = some address) :
    (row.filler memory).operand? = some (.address address) := by
  unfold filler
  rw [hplace, haddress]
  exact if_pos (by rw [hplace]; rfl)

end Row

/-! ## Fillers of a routine -/

/-- The instruction stands in a flat sequence of the code. -/
inductive FlatIn (i : Instruction) : Code → Prop
  | group {g : Group Code} (mem : .instr i ∈ g.items) : FlatIn i (.group g)
  | loop {l : Loop Code} (body : FlatIn i l.body) : FlatIn i (.loop l)

/-- At any depth, what stands in a flat sequence of admitted code is a filler under the whole grant. -/
theorem Admitted.offers_of_flatIn {m : Machine} {memory : List String} {granted : ResourceSet}
    {enclosing : List Counter} {code : Code} (h : Admitted m memory granted enclosing code)
    {i : Instruction} (hi : FlatIn i code) : m.catalog.Offers granted memory i := by
  induction h with
  | group fillers =>
    cases hi with
    | group mem =>
      obtain ⟨_, ⟨⟩, row, hrow, husable, hneeds, rfl⟩ := fillers _ mem
      exact ⟨row, hrow, husable,
        ResourceSet.subset_trans hneeds (ResourceSet.eraseAll_subset _), rfl⟩
  | loop counted inGrant apart body ih =>
    cases hi with
    | loop hbody => exact ih hbody

namespace Synthesizer

/-- What stands in the flat sequences of the main part are fillers from rows of the catalog. If such a
row has a place for sixteen bits and accesses memory, then the operand is the address of a cell that the
caller offers and in which no register is saved. If the row accesses two cells, then the next cell is
another one of these. -/
theorem operands_granted (y : Synthesizer) (test : SpillTest) (r : Request) {routine : Routine Code}
    {stats : Stats} (h : y.buildWith test r = .ok (some routine, stats)) :
    ∃ f s, (y.freeRegisters? test (r.innerWindow routine.ret?) (Register.count + 1)
        { resources := r.resources }).run {} = .ok (some f) s ∧
      ∀ i, FlatIn i routine.main →
        y.machine.catalog.Offers (ResourceSet.ofResources f.resources)
          (Resource.addresses f.resources) i ∧
        ∀ row ∈ y.machine.catalog.rows, row.needs ⊆ ResourceSet.ofResources f.resources →
          i = row.filler (Resource.addresses f.resources) →
          row.placeholder? = some .word → 1 ≤ row.needs.memoryCount →
          ∃ address, i.operand? = some (.address address) ∧
            KeptCell r.resources f.resources address ∧
            (row.needs.memoryCount = 2 → ∃ v, Address.value? address = some v ∧ v + 1 < bound32 ∧
              ∃ next, Address.value? next = some (v + 1) ∧
                KeptCell r.resources f.resources next) := by
  obtain ⟨f, hfound⟩ := routineFound_of_build h
  obtain ⟨freed, -, hspills⟩ := hfound.spills
  obtain ⟨s, hframe⟩ := hfound.frame
  obtain ⟨_, -, hmain⟩ := hfound.main
  refine ⟨f, s, hframe, fun i hi => ⟨hmain.admitted.offers_of_flatIn hi, ?_⟩⟩
  rintro row - hneeds rfl hplace hcount
  obtain ⟨address, hmem, haddress, hneighbour⟩ := row.exists_fillerAddress? hneeds hcount
  refine ⟨address, Row.operand?_filler hplace haddress, hspills.keptCell hmem, fun htwo => ?_⟩
  obtain ⟨v, hv, next, hnext, hvalue⟩ := hneighbour htwo
  exact ⟨v, hv, Address.value?_lt hvalue, next, hvalue, hspills.keptCell hnext⟩

/-- A store of sixteen bits to the cell at `2000H` and its upper neighbour. -/
def pairStore : Instruction where
  template := "SHLD 16b"
  placeholder? := some .word
  operand? := some (.address "2000H")
  duration := 16

set_option maxRecDepth 100000 in
/-- The first of three cells takes register A. The other two are neighbours, in whatever way their
addresses are written, and so the main part may store to both at once. -/
theorem operands_granted_neighbours : ∃ routine stats,
    I8085.synthesizer.buildWith (fun _ granted => .ok (Register.a ∉ granted))
      { min := 42, max := 42, resources := [.memory "1000H", .memory "8193", .memory "2000H"]
        budget := 3, includeReturn := false } = .ok (some routine, stats) ∧
    FlatIn pairStore routine.main ∧ ∃ f : Frame,
      KeptCell [.memory "1000H", .memory "8193", .memory "2000H"] f.resources "2000H" ∧
      ∃ v, Address.value? "2000H" = some v ∧ v + 1 < bound32 ∧
        ∃ next, Address.value? next = some (v + 1) ∧
          KeptCell [.memory "1000H", .memory "8193", .memory "2000H"] f.resources next := by
  have hbuilt : (built? <| I8085.synthesizer.buildWith (fun _ granted => .ok (Register.a ∉ granted))
      { min := 42, max := 42, resources := [.memory "1000H", .memory "8193", .memory "2000H"]
        budget := 3, includeReturn := false }).any
      (fun routine => decide (routine.main = .group (.unordered [.instr pairStore]))) = true := by
    decide +kernel
  obtain ⟨routine, stats, h, hmain⟩ := exists_of_any_built? hbuilt
  have hflat : FlatIn pairStore routine.main := by
    rw [of_decide_eq_true hmain]
    exact .group (List.mem_singleton.mpr rfl)
  obtain ⟨f, s, -, hfillers⟩ := operands_granted _ _ _ h
  obtain ⟨⟨row, hrow, -, hneeds, hfiller⟩, haddress⟩ := hfillers pairStore hflat
  -- The template of the instruction leads back to its row, which needs two cells.
  have hrows : ∀ row ∈ I8085.catalog.rows, row.template = "SHLD 16b" →
      row.placeholder? = some .word ∧ row.needs.memoryCount = 2 := by
    decide +kernel
  have htemplate : row.template = pairStore.template := by
    rw [hfiller, Row.template_filler]
  obtain ⟨hplace, htwo⟩ := hrows row hrow htemplate
  obtain ⟨address, hoperand, hkept, hneighbour⟩ :=
    haddress row hrow hneeds hfiller hplace (by omega)
  cases hoperand
  exact ⟨routine, stats, h, hflat, f, hkept, hneighbour htwo⟩

end Synthesizer

end DelaySynth
