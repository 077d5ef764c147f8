import DelaySynth.Proofs.ResourceSet
import DelaySynth.Proofs.Spill.Steps

/-!
# Resources while registers are freed

A step that frees a register grants that register and no other. It takes the first memory cell that
is offered out of the list, or leaves the list's memory as it is, and the stack stays.

* `Step.mem_ofResources`, `Spills.mem_ofResources`: the registers that are granted afterwards.
* `resources_of_run_error`: an attempt that fails changes no resources.
* `Spills.getLsbD_ofResources`: memory and the stack are granted no further than before.
-/

namespace DelaySynth.Frame

open Resource

variable {m : Machine} {f g : Frame} {r q : Register}

/-! ## The register that is freed -/

theorem lowestUngranted?_eq_some {granted : ResourceSet} (h : lowestUngranted? granted = some r) :
    r.Named ∧ r ∉ granted ∧ ∀ q : Register, q.number < r.number → q ∈ granted := by
  obtain ⟨hr, before, after, hall, hbefore⟩ := List.find?_eq_some_iff_append.mp h
  have hnamed : r.Named := by
    rw [← Register.mem_all, hall]
    simp
  refine ⟨hnamed, by simpa using hr, fun q hq => ?_⟩
  have hqnamed : q.Named := by
    have : r.number < Register.count := hnamed
    show q.number < Register.count
    omega
  have hpair : (before ++ r :: after).Pairwise fun p q => p.number < q.number := by
    rw [← hall]
    decide
  have hmem : q ∈ before ++ r :: after := by
    rw [← hall]
    exact Register.mem_all.mpr hqnamed
  rcases List.mem_append.mp hmem with hq' | hq'
  · simpa using hbefore q hq'
  · rcases List.mem_cons.mp hq' with rfl | hq'
    · omega
    · have := (List.pairwise_cons.mp (List.pairwise_append.mp hpair).2.1).1 q hq'
      omega

theorem lowestUngranted?_eq_none {granted : ResourceSet} (h : lowestUngranted? granted = none)
    (hq : q.Named) : q ∈ granted := by
  simpa using List.find?_eq_none.mp h q (Register.mem_all.mpr hq)

/-! ## Exchanging a cell for a register -/

theorem exchangeMemory?_eq_none {name : String} {rs : List Resource}
    (h : exchangeMemory? name rs = none) : addresses rs = [] := by
  induction rs with
  | nil => rfl
  | cons p rs ih =>
    rw [exchangeMemory?] at h
    split at h
    · cases h
    · rename_i hp
      rw [addresses, List.filterMap_cons_none hp]
      exact ih (Option.map_eq_none_iff.mp h)

/-- The exchanged cell is the first one that the list offers, and only its place changes. -/
theorem exchangeMemory?_eq_some {name address : String} {rs qs : List Resource}
    (h : exchangeMemory? name rs = some (address, qs)) : ∃ before cell after,
      rs = before ++ cell :: after ∧ qs = before ++ Resource.register name :: after ∧
      cell.address? = some address ∧ ∀ p ∈ before, p.address? = none := by
  induction rs generalizing qs with
  | nil => cases h
  | cons p rs ih =>
    rw [exchangeMemory?] at h
    split at h
    · rename_i hp
      cases h
      exact ⟨[], p, rs, rfl, rfl, hp, fun _ h => nomatch h⟩
    · rename_i hp
      obtain ⟨⟨_, qs⟩, hrest, ⟨⟩⟩ := Option.map_eq_some_iff.mp h
      obtain ⟨before, cell, after, rfl, rfl, hcell, hbefore⟩ := ih hrest
      exact ⟨p :: before, cell, after, rfl, rfl, hcell, List.forall_mem_cons.mpr ⟨hp, hbefore⟩⟩

theorem register?_register (hr : r.Named) : (Resource.register r.name).register? = some r :=
  Register.ofName?_name r (Register.mem_all.mpr hr)

theorem addresses_exchange {name address : String} {rs qs : List Resource}
    (h : exchangeMemory? name rs = some (address, qs)) : addresses rs = address :: addresses qs := by
  obtain ⟨before, cell, after, rfl, rfl, hcell, hbefore⟩ := exchangeMemory?_eq_some h
  have hnil : before.filterMap address? = [] := List.filterMap_eq_nil_iff.mpr hbefore
  have hnone : (Resource.register name).address? = none := rfl
  simp [addresses, hnil, hcell, hnone]

/-- A cell offers neither a register nor the stack. -/
theorem register?_of_address? {cell : Resource} {address : String}
    (h : cell.address? = some address) : cell.register? = none ∧ cell.offersStack = false := by
  unfold Resource.address? at h
  split at h
  · exact ⟨rfl, rfl⟩
  · cases h

theorem mem_ofResources_exchange (hr : r.Named) {address : String} {rs qs : List Resource}
    (h : exchangeMemory? r.name rs = some (address, qs)) :
    q ∈ ResourceSet.ofResources qs ↔ q ∈ ResourceSet.ofResources rs ∨ q = r := by
  obtain ⟨before, cell, after, rfl, rfl, hcell, -⟩ := exchangeMemory?_eq_some h
  rw [ResourceSet.mem_ofResources, ResourceSet.mem_ofResources]
  simp only [List.mem_append, List.mem_cons, or_and_right, exists_or, exists_eq_left,
    register?_register hr, (register?_of_address? hcell).1]
  grind

theorem any_offersStack_exchange {name address : String} {rs qs : List Resource}
    (h : exchangeMemory? name rs = some (address, qs)) :
    qs.any offersStack = rs.any offersStack := by
  obtain ⟨before, cell, after, rfl, rfl, hcell, -⟩ := exchangeMemory?_eq_some h
  have hregister : (Resource.register name).offersStack = false := rfl
  simp [(register?_of_address? hcell).2, hregister]

theorem mem_ofResources_append (hr : r.Named) {rs : List Resource} :
    q ∈ ResourceSet.ofResources (rs ++ [Resource.register r.name]) ↔
      q ∈ ResourceSet.ofResources rs ∨ q = r := by
  rw [ResourceSet.mem_ofResources, ResourceSet.mem_ofResources]
  simp only [List.mem_append, List.mem_singleton, or_and_right, exists_or, exists_eq_left,
    register?_register hr]
  grind

/-! ## Steps -/

theorem Step.lowest {outcome : SpillOutcome} (h : Step m f outcome g)
    (hr : outcome.freed? = some r) :
    lowestUngranted? (ResourceSet.ofResources f.resources) = some r := by
  cases h <;> cases hr <;> assumption

theorem Step.mem_ofResources {outcome : SpillOutcome} (h : Step m f outcome g)
    (hr : outcome.freed? = some r) : q ∈ ResourceSet.ofResources g.resources ↔
      q ∈ ResourceSet.ofResources f.resources ∨ q = r := by
  have hnamed := (lowestUngranted?_eq_some (h.lowest hr)).1
  cases h with
  | nothingToFree => cases hr
  | infeasible => cases hr
  | primary _ exchanged => cases hr; exact mem_ofResources_exchange hnamed exchanged
  | copied _ exchanged => cases hr; exact mem_ofResources_exchange hnamed exchanged
  | stacked => cases hr; exact mem_ofResources_append hnamed

theorem Step.addresses_sublist {outcome : SpillOutcome} (h : Step m f outcome g) :
    (addresses g.resources).Sublist (addresses f.resources) := by
  cases h with
  | nothingToFree => exact List.Sublist.refl _
  | infeasible => exact List.Sublist.refl _
  | primary _ exchanged => rw [addresses_exchange exchanged]; exact List.sublist_cons_self _ _
  | copied _ exchanged => rw [addresses_exchange exchanged]; exact List.sublist_cons_self _ _
  | stacked => simp [addresses, Resource.register, address?]

theorem Step.any_offersStack {outcome : SpillOutcome} (h : Step m f outcome g) :
    g.resources.any offersStack = f.resources.any offersStack := by
  cases h with
  | nothingToFree => rfl
  | infeasible => rfl
  | primary _ exchanged => exact any_offersStack_exchange exchanged
  | copied _ exchanged => exact any_offersStack_exchange exchanged
  | stacked => simp [Resource.register, offersStack]

/-! ## Attempts that fail -/

/-- The run leaves the resources `rs` of a frame alone, also when it fails. -/
abbrev Leaves (rs : List Resource) (x : FrameM Unit) : Prop :=
  Ensures (fun f : Frame => f.resources = rs) (fun _ _ => True) x fun _ => True

variable {rs : List Resource}

theorem leaves_appendSave (i : Except CatalogError Instruction) : Leaves rs (appendSave i) := by
  cases i with
  | ok i => exact .of_modify fun _ hf => hf
  | error e => exact .of_throw fun _ _ => trivial

theorem leaves_prependRestore (i : Except CatalogError Instruction) :
    Leaves rs (prependRestore i) := by
  cases i with
  | ok i => exact .of_modify fun _ hf => hf
  | error e => exact .of_throw fun _ _ => trivial

theorem leaves_spillToMemory (address : String) : Leaves rs (spillToMemory m r address) := by
  unfold spillToMemory
  by_cases hr : r = m.target.primary
  · simp only [ne_eq, hr, not_true_eq_false, ite_false]
    exact (leaves_appendSave _).bind fun _ _ => leaves_prependRestore _
  · simp only [ne_eq, hr, not_false_eq_true, ite_true]
    exact (leaves_appendSave _).bind fun _ _ => (leaves_appendSave _).bind fun _ _ =>
      (leaves_prependRestore _).bind fun _ _ => leaves_prependRestore _

theorem leaves_spillToStack (push pop : Instruction) : Leaves rs (spillToStack push pop) := by
  have hpop : Leaves rs
      (do unless (← get).restore.items.contains (.instr pop) do prependRestore (.ok pop)) := by
    refine Ensures.of_get.bind fun f _ => ?_
    split
    · exact .of_pure trivial
    · exact leaves_prependRestore _
  unfold spillToStack
  refine Ensures.of_get.bind fun f _ => ?_
  split
  · exact hpop
  · exact (leaves_appendSave _).bind fun _ _ => hpop

/-- An attempt that fails changes no resources, for these are exchanged last. -/
theorem resources_of_run_error {e : CatalogError} (h : (spill m).run f = .error e g) :
    g.resources = f.resources := by
  unfold spill at h
  rcases run_bind_eq_error.mp h with h | ⟨_, _, hget, h⟩
  · cases h
  obtain ⟨rfl, rfl⟩ := run_get_eq_ok.mp hget
  split at h
  case h_2 => cases h
  case h_1 r hlowest =>
  split at h
  case h_1 address resources hexchange =>
    rcases run_bind_eq_error.mp h with h | ⟨_, _, -, h⟩
    · exact ((leaves_spillToMemory address).of_error rfl h).1
    · cases h
  case h_2 hexchange =>
  split at h
  · split at h
    · cases h
      rfl
    · cases h
    · rcases run_bind_eq_error.mp h with h | ⟨_, _, -, h⟩
      · exact ((leaves_spillToStack _ _).of_error rfl h).1
      · cases h
  · cases h

/-! ## Any number of steps -/

variable {freed : List Register}

theorem Spills.mem_ofResources (h : Spills m f freed g) :
    q ∈ ResourceSet.ofResources g.resources ↔
      q ∈ ResourceSet.ofResources f.resources ∨ q ∈ freed := by
  induction h with
  | refl => simp
  | tail before last success ih =>
    rw [(step_of_run last).mem_ofResources success, ih, List.mem_append, List.mem_singleton, or_assoc]

theorem Spills.addresses_sublist (h : Spills m f freed g) :
    (addresses g.resources).Sublist (addresses f.resources) := by
  induction h with
  | refl => exact List.Sublist.refl _
  | tail before last success ih => exact (step_of_run last).addresses_sublist.trans ih

theorem Spills.any_offersStack (h : Spills m f freed g) :
    g.resources.any offersStack = f.resources.any offersStack := by
  induction h with
  | refl => rfl
  | tail before last success ih => rw [(step_of_run last).any_offersStack, ih]

theorem Spills.getLsbD_ofResources (h : Spills m f freed g) {i : Nat} (hi : Register.count ≤ i)
    (hbit : (ResourceSet.ofResources g.resources).bits.getLsbD i = true) :
    (ResourceSet.ofResources f.resources).bits.getLsbD i = true :=
  ResourceSet.getLsbD_ofResources_mono h.addresses_sublist
    (fun hstack => h.any_offersStack ▸ hstack) hi hbit

end DelaySynth.Frame
