import DelaySynth.Proofs.Machine
import DelaySynth.Proofs.Runs
import DelaySynth.Spill.Basic

/-!
# Steps of freeing registers

`Frame.Step` says once what an attempt to free a register does to a frame: nothing, if there is
nothing to free or no place to save it; two instructions through memory for the primary register
and four for another; or a push and a pop, each unless it is there already.
`Frame.Spills` is any number of successful attempts in a row.

* `step_of_run`: an attempt that does not fail is such a step.
* `Spills.named`: what stands around the main part are instructions of the machine.
* `Spills.head`: attempts in a row may also be taken apart at the first one.
-/

namespace DelaySynth

/-- The register that an attempt has freed. -/
def SpillOutcome.freed? : SpillOutcome → Option Register
  | memory r => some r
  | stack r => some r
  | nothingToFree => none
  | infeasible => none

namespace Frame

variable {m : Machine} {f g : Frame}

/-- The saving part with a push, unless it is there already. -/
def withPush (f : Frame) (push : Instruction) : Group Code :=
  if f.save.items.contains (.instr push) then f.save else f.save.append push

/-- The restoring part with a pop, unless it is there already. -/
def withPop (f : Frame) (pop : Instruction) : Group Code :=
  if f.restore.items.contains (.instr pop) then f.restore else f.restore.prepend pop

theorem mem_withPush {push : Instruction} {code : Code} :
    code ∈ (f.withPush push).items ↔ code ∈ f.save.items ∨ code = .instr push := by
  unfold withPush
  split
  · rename_i h
    constructor
    · exact .inl
    · rintro (hmem | rfl)
      · exact hmem
      · exact List.contains_iff_mem.mp h
  · simp [Group.append]

theorem mem_withPop {pop : Instruction} {code : Code} :
    code ∈ (f.withPop pop).items ↔ code ∈ f.restore.items ∨ code = .instr pop := by
  unfold withPop
  split
  · rename_i h
    constructor
    · exact .inl
    · rintro (hmem | rfl)
      · exact hmem
      · exact List.contains_iff_mem.mp h
  · simp [Group.prepend, or_comm]

/-- What an attempt to free a register does. -/
inductive Step (m : Machine) (f : Frame) : SpillOutcome → Frame → Prop
  | nothingToFree (lowest : lowestUngranted? (ResourceSet.ofResources f.resources) = none) :
      Step m f .nothingToFree f
  | infeasible {r : Register}
      (lowest : lowestUngranted? (ResourceSet.ofResources f.resources) = some r)
      (noMemory : exchangeMemory? r.name f.resources = none) :
      Step m f .infeasible f
  | primary {r : Register} {address : String} {resources : List Resource}
      {store load : Instruction}
      (lowest : lowestUngranted? (ResourceSet.ofResources f.resources) = some r)
      (exchanged : exchangeMemory? r.name f.resources = some (address, resources))
      (isPrimary : r = m.target.primary)
      (storeOk : m.store address = .ok store)
      (loadOk : m.load address = .ok load) :
      Step m f (.memory r)
        { resources, save := f.save.append store, restore := f.restore.prepend load }
  | copied {r : Register} {address : String} {resources : List Resource}
      {out store back load : Instruction}
      (lowest : lowestUngranted? (ResourceSet.ofResources f.resources) = some r)
      (exchanged : exchangeMemory? r.name f.resources = some (address, resources))
      (notPrimary : r ≠ m.target.primary)
      (outOk : m.move m.target.primary r = .ok out)
      (storeOk : m.store address = .ok store)
      (backOk : m.move r m.target.primary = .ok back)
      (loadOk : m.load address = .ok load) :
      Step m f (.memory r)
        { resources, save := (f.save.append out).append store
          restore := (f.restore.prepend back).prepend load }
  | stacked {r : Register} {push pop : Instruction}
      (lowest : lowestUngranted? (ResourceSet.ofResources f.resources) = some r)
      (noMemory : exchangeMemory? r.name f.resources = none)
      (stack : f.resources.any Resource.offersStack = true)
      (pushOk : m.push? r = .ok (some push))
      (popOk : m.pop? r = .ok (some pop)) :
      Step m f (.stack r)
        { resources := f.resources ++ [Resource.register r.name]
          save := f.withPush push, restore := f.withPop pop }

/-- Successful attempts in a row, with the registers that they freed. -/
inductive Spills (m : Machine) (f : Frame) : List Register → Frame → Prop
  | refl : Spills m f [] f
  | tail {freed : List Register} {g h : Frame} {outcome : SpillOutcome} {r : Register}
      (before : Spills m f freed g) (last : (spill m).run g = .ok outcome h)
      (success : outcome.freed? = some r) : Spills m f (freed ++ [r]) h

/-! ## An attempt is a step -/

theorem run_appendSave_eq_ok {e : Except CatalogError Instruction} {u : Unit} :
    (appendSave e).run f = .ok u g ↔ ∃ i, e = .ok i ∧ g = { f with save := f.save.append i } := by
  cases e with
  | error e => simp [appendSave]
  | ok i =>
    rw [appendSave, run_modify_eq_ok]
    constructor
    · exact fun h => ⟨i, rfl, h.symm⟩
    · rintro ⟨_, ⟨⟩, h⟩
      exact h.symm

theorem run_prependRestore_eq_ok {e : Except CatalogError Instruction} {u : Unit} :
    (prependRestore e).run f = .ok u g ↔
      ∃ i, e = .ok i ∧ g = { f with restore := f.restore.prepend i } := by
  cases e with
  | error e => simp [prependRestore]
  | ok i =>
    rw [prependRestore, run_modify_eq_ok]
    constructor
    · exact fun h => ⟨i, rfl, h.symm⟩
    · rintro ⟨_, ⟨⟩, h⟩
      exact h.symm

theorem stackPair?_eq_ok {r : Register} {push pop : Instruction}
    (h : stackPair? m r = .ok (some (push, pop))) :
    m.push? r = .ok (some push) ∧ m.pop? r = .ok (some pop) := by
  unfold stackPair? at h
  cases hpush : m.push? r with
  | error e => rw [hpush] at h; cases h
  | ok push? =>
    cases hpop : m.pop? r with
    | error e => rw [hpush, hpop] at h; cases h
    | ok pop? =>
      rw [hpush, hpop] at h
      cases push? with
      | none => cases h
      | some _ =>
        cases pop? with
        | none => cases h
        | some _ =>
          cases h
          exact ⟨rfl, rfl⟩

theorem run_spillToStack_eq_ok {push pop : Instruction} {u : Unit}
    (h : (spillToStack push pop).run f = .ok u g) :
    g = { f with save := f.withPush push, restore := f.withPop pop } := by
  unfold spillToStack at h
  obtain ⟨_, _, hget, h⟩ := run_bind_eq_ok.mp h
  obtain ⟨rfl, rfl⟩ := run_get_eq_ok.mp hget
  -- The pop is looked for in the frame as the push has left it, which has the same restoring part.
  have hpop {f' : Frame} (hrestore : f'.restore = f.restore)
      (h : (do unless (← get).restore.items.contains (.instr pop) do
        prependRestore (.ok pop) : FrameM Unit).run f' = .ok u g) :
      g = { f' with restore := f.withPop pop } := by
    obtain ⟨_, _, hget, h⟩ := run_bind_eq_ok.mp h
    obtain ⟨rfl, rfl⟩ := run_get_eq_ok.mp hget
    unfold withPop
    rw [← hrestore]
    split at h
    · rename_i hmem
      obtain ⟨-, rfl⟩ := run_pure_eq_ok.mp h
      rw [if_pos hmem]
    · rename_i hmem
      obtain ⟨_, ⟨⟩, rfl⟩ := run_prependRestore_eq_ok.mp h
      rw [if_neg hmem]
  unfold withPush
  split at h
  · rename_i hmem
    rw [hpop (by rfl) h, if_pos hmem]
  · rename_i hmem
    obtain ⟨_, _, hpush, h⟩ := run_bind_eq_ok.mp h
    obtain ⟨_, ⟨⟩, rfl⟩ := run_appendSave_eq_ok.mp hpush
    rw [hpop (by rfl) h, if_neg hmem]

theorem run_spillToMemory_primary {address : String} {u : Unit}
    (h : (spillToMemory m m.target.primary address).run f = .ok u g) :
    ∃ store load, m.store address = .ok store ∧ m.load address = .ok load ∧
      g = { f with save := f.save.append store, restore := f.restore.prepend load } := by
  unfold spillToMemory at h
  simp only [ne_eq, not_true_eq_false, ite_false] at h
  obtain ⟨_, _, hstore, h⟩ := run_bind_eq_ok.mp h
  obtain ⟨store, storeOk, rfl⟩ := run_appendSave_eq_ok.mp hstore
  obtain ⟨load, loadOk, rfl⟩ := run_prependRestore_eq_ok.mp h
  exact ⟨store, load, storeOk, loadOk, rfl⟩

theorem run_spillToMemory_copied {r : Register} (hr : r ≠ m.target.primary) {address : String}
    {u : Unit} (h : (spillToMemory m r address).run f = .ok u g) :
    ∃ out store back load, m.move m.target.primary r = .ok out ∧ m.store address = .ok store ∧
      m.move r m.target.primary = .ok back ∧ m.load address = .ok load ∧
      g = { f with save := (f.save.append out).append store
                   restore := (f.restore.prepend back).prepend load } := by
  unfold spillToMemory at h
  simp only [ne_eq, hr, not_false_eq_true, ite_true] at h
  obtain ⟨_, _, hout, h⟩ := run_bind_eq_ok.mp h
  obtain ⟨out, outOk, rfl⟩ := run_appendSave_eq_ok.mp hout
  obtain ⟨_, _, hstore, h⟩ := run_bind_eq_ok.mp h
  obtain ⟨store, storeOk, rfl⟩ := run_appendSave_eq_ok.mp hstore
  obtain ⟨_, _, hback, h⟩ := run_bind_eq_ok.mp h
  obtain ⟨back, backOk, rfl⟩ := run_prependRestore_eq_ok.mp hback
  obtain ⟨load, loadOk, rfl⟩ := run_prependRestore_eq_ok.mp h
  exact ⟨out, store, back, load, outOk, storeOk, backOk, loadOk, rfl⟩

theorem step_of_run {outcome : SpillOutcome} (h : (spill m).run f = .ok outcome g) :
    Step m f outcome g := by
  unfold spill at h
  obtain ⟨_, _, hget, h⟩ := run_bind_eq_ok.mp h
  obtain ⟨rfl, rfl⟩ := run_get_eq_ok.mp hget
  split at h
  case h_2 hlowest =>
    obtain ⟨rfl, rfl⟩ := run_pure_eq_ok.mp h
    exact .nothingToFree (Option.eq_none_iff_forall_not_mem.mpr hlowest)
  case h_1 r hlowest =>
  split at h
  case h_1 address resources hexchange =>
    obtain ⟨_, _, hspill, h⟩ := run_bind_eq_ok.mp h
    obtain ⟨_, _, hmodify, h⟩ := run_bind_eq_ok.mp h
    obtain rfl := run_modify_eq_ok.mp hmodify
    obtain ⟨rfl, rfl⟩ := run_pure_eq_ok.mp h
    by_cases hr : r = m.target.primary
    · subst hr
      obtain ⟨store, load, hstore, hload, rfl⟩ := run_spillToMemory_primary hspill
      exact .primary hlowest hexchange rfl hstore hload
    · obtain ⟨out, store, back, load, hout, hstore, hback, hload, rfl⟩ :=
        run_spillToMemory_copied hr hspill
      exact .copied hlowest hexchange hr hout hstore hback hload
  case h_2 hexchange =>
  split at h
  · rename_i hstack
    split at h
    · exact absurd h run_throw_ne_ok
    · obtain ⟨rfl, rfl⟩ := run_pure_eq_ok.mp h
      exact .infeasible hlowest hexchange
    · rename_i push pop hpair
      obtain ⟨hpush, hpop⟩ := stackPair?_eq_ok hpair
      obtain ⟨_, _, hspill, h⟩ := run_bind_eq_ok.mp h
      obtain rfl := run_spillToStack_eq_ok hspill
      obtain ⟨_, _, hmodify, h⟩ := run_bind_eq_ok.mp h
      obtain rfl := run_modify_eq_ok.mp hmodify
      obtain ⟨rfl, rfl⟩ := run_pure_eq_ok.mp h
      exact .stacked hlowest hexchange hstack hpush hpop
  · obtain ⟨rfl, rfl⟩ := run_pure_eq_ok.mp h
    exact .infeasible hlowest hexchange

/-! ## Attempts in a row -/

/-- Around the main part stand single instructions that the machine names. -/
def Named (m : Machine) (f : Frame) : Prop :=
  (∀ code ∈ f.save.items, m.Names code) ∧ ∀ code ∈ f.restore.items, m.Names code

theorem Step.named {outcome : SpillOutcome} (h : Step m f outcome g) (hf : f.Named m) :
    g.Named m := by
  obtain ⟨hsave, hrestore⟩ := hf
  cases h with
  | nothingToFree => exact ⟨hsave, hrestore⟩
  | infeasible => exact ⟨hsave, hrestore⟩
  | primary _ _ _ storeOk loadOk =>
    refine ⟨fun code hcode => ?_, List.forall_mem_cons.mpr ⟨⟨_, _, _, rfl, loadOk⟩, hrestore⟩⟩
    rcases List.mem_append.mp hcode with hcode | hcode
    · exact hsave code hcode
    · exact ⟨_, _, _, List.mem_singleton.mp hcode, storeOk⟩
  | copied _ _ _ outOk storeOk backOk loadOk =>
    refine ⟨fun code hcode => ?_, List.forall_mem_cons.mpr ⟨⟨_, _, _, rfl, loadOk⟩,
      List.forall_mem_cons.mpr ⟨⟨_, _, _, rfl, backOk⟩, hrestore⟩⟩⟩
    rcases List.mem_append.mp hcode with hcode | hcode
    · rcases List.mem_append.mp hcode with hcode | hcode
      · exact hsave code hcode
      · exact ⟨_, _, _, List.mem_singleton.mp hcode, outOk⟩
    · exact ⟨_, _, _, List.mem_singleton.mp hcode, storeOk⟩
  | stacked _ _ _ pushOk popOk =>
    obtain ⟨_, -, hpush⟩ := Machine.instruction_of_mapM pushOk
    obtain ⟨_, -, hpop⟩ := Machine.instruction_of_mapM popOk
    refine ⟨fun code hcode => ?_, fun code hcode => ?_⟩
    · rcases mem_withPush.mp hcode with hcode | rfl
      · exact hsave code hcode
      · exact ⟨_, _, _, rfl, hpush⟩
    · rcases mem_withPop.mp hcode with hcode | rfl
      · exact hrestore code hcode
      · exact ⟨_, _, _, rfl, hpop⟩

theorem Spills.named {freed : List Register} (h : Spills m f freed g) (hf : f.Named m) :
    g.Named m := by
  induction h with
  | refl => exact hf
  | tail before last success ih => exact (step_of_run last).named ih

theorem Spills.head {outcome : SpillOutcome} {r : Register} {freed : List Register} {h : Frame}
    (first : (spill m).run f = .ok outcome g) (success : outcome.freed? = some r)
    (rest : Spills m g freed h) : Spills m f (r :: freed) h := by
  induction rest with
  | refl => exact .tail .refl first success
  | tail before last hlast ih => exact .tail ih last hlast

end Frame

end DelaySynth
