import DelaySynth.Proofs.Build
import DelaySynth.Proofs.Target.I8085

/-!
# What lists of resources offer

Lists may name registers in any order and repeatedly, they may name unknown ones, and elements that are
withheld may stand anywhere between the others. What counts is which registers a list offers, which
addresses in which order, and whether it offers the stack. Lists that offer the same may be of different
shapes, and freeing a register changes them at different places, but they offer the same again.

* `SameOffers`: lists that offer the same.
* `SameOffers.ofResources_eq`: they amount to the same grant.
* `SameOffers.exchange`, `SameOffers.append`: they stay like that while registers are freed.
* `Frame.agree_spill`, `agree_freeRegisters?`: so freeing registers goes the same way for both.
* `same_offers_same_build`: what this means for builds.
-/

namespace DelaySynth

open Resource

variable {rs qs rs' qs' : List Resource} {r : Register}

/-- Two lists offer the same registers, the same addresses in the same order, and both of them the stack
or neither. -/
structure SameOffers (rs qs : List Resource) : Prop where
  registers : ∀ q, (∃ p ∈ rs, p.register? = some q) ↔ ∃ p ∈ qs, p.register? = some q
  addresses : addresses rs = addresses qs
  stack : rs.any offersStack = qs.any offersStack

namespace SameOffers

theorem of_mem_iff (hregisters : ∀ q, q ∈ ResourceSet.ofResources rs ↔ q ∈ ResourceSet.ofResources qs)
    (haddresses : Resource.addresses rs = Resource.addresses qs)
    (hstack : rs.any offersStack = qs.any offersStack) : SameOffers rs qs where
  registers q := by
    rw [← ResourceSet.mem_ofResources, ← ResourceSet.mem_ofResources]
    exact hregisters q
  addresses := haddresses
  stack := hstack

theorem mem_iff (h : SameOffers rs qs) (q : Register) :
    q ∈ ResourceSet.ofResources rs ↔ q ∈ ResourceSet.ofResources qs := by
  rw [ResourceSet.mem_ofResources, ResourceSet.mem_ofResources]
  exact h.registers q

theorem ofResources_eq (h : SameOffers rs qs) :
    ResourceSet.ofResources rs = ResourceSet.ofResources qs := by
  apply ResourceSet.ext
  apply BitVec.eq_of_getLsbD_eq
  intro i _
  rw [Bool.eq_iff_iff]
  by_cases hi : Register.count ≤ i
  · rw [ResourceSet.getLsbD_ofResources hi, ResourceSet.getLsbD_ofResources hi, h.addresses, h.stack]
  · have hnamed : (⟨i⟩ : Register).Named := Nat.lt_of_not_le hi
    have hmem := h.mem_iff ⟨i⟩
    rw [ResourceSet.mem_iff, ResourceSet.mem_iff, and_iff_right hnamed, and_iff_right hnamed] at hmem
    exact hmem

theorem symm (h : SameOffers rs qs) : SameOffers qs rs where
  registers q := (h.registers q).symm
  addresses := h.addresses.symm
  stack := h.stack.symm

/-! ## Freeing a register -/

theorem exchange_none {name : String} (h : SameOffers rs qs)
    (hrs : Frame.exchangeMemory? name rs = none) : Frame.exchangeMemory? name qs = none := by
  cases hqs : Frame.exchangeMemory? name qs with
  | none => rfl
  | some found =>
    have haddresses := h.addresses
    rw [Frame.exchangeMemory?_eq_none hrs, Frame.addresses_exchange hqs] at haddresses
    cases haddresses

/-- The exchanged cell is the one with the first address, wherever it stands. -/
theorem exchange {address : String} (h : SameOffers rs qs) (hr : r.Named)
    (hrs : Frame.exchangeMemory? r.name rs = some (address, rs')) :
    ∃ qs', Frame.exchangeMemory? r.name qs = some (address, qs') ∧ SameOffers rs' qs' := by
  cases hqs : Frame.exchangeMemory? r.name qs with
  | none =>
    rw [h.symm.exchange_none hqs] at hrs
    cases hrs
  | some found =>
    obtain ⟨address', qs'⟩ := found
    have haddresses := h.addresses
    rw [Frame.addresses_exchange hrs, Frame.addresses_exchange hqs] at haddresses
    obtain ⟨rfl, hrest⟩ := List.cons.inj haddresses
    refine ⟨qs', rfl, of_mem_iff (fun q => ?_) hrest ?_⟩
    · rw [Frame.mem_ofResources_exchange hr hrs, Frame.mem_ofResources_exchange hr hqs, h.mem_iff]
    · rw [Frame.any_offersStack_exchange hrs, Frame.any_offersStack_exchange hqs, h.stack]

theorem append (h : SameOffers rs qs) (hr : r.Named) :
    SameOffers (rs ++ [Resource.register r.name]) (qs ++ [Resource.register r.name]) := by
  refine of_mem_iff (fun q => ?_) ?_ ?_
  · rw [Frame.mem_ofResources_append hr, Frame.mem_ofResources_append hr, h.mem_iff]
  · have haddresses := h.addresses
    unfold Resource.addresses at haddresses ⊢
    rw [List.filterMap_append, List.filterMap_append, haddresses]
  · rw [List.any_append, List.any_append, h.stack]

end SameOffers

/-! ## Frames -/

namespace Frame

variable {m : Machine} {f g : Frame}

/-- Two frames save and restore with the same code, and their resources offer the same. -/
structure Alike (f g : Frame) : Prop where
  resources : SameOffers f.resources g.resources
  save : f.save = g.save
  restore : f.restore = g.restore

theorem agree_appendSave (i : Except CatalogError Instruction) :
    Agree Alike Eq (appendSave i) (appendSave i) := by
  cases i with
  | error e => exact .of_throw e
  | ok i =>
    apply Agree.of_modify
    intro f g hfg
    refine ⟨hfg.resources, ?_, hfg.restore⟩
    rw [hfg.save]

theorem agree_prependRestore (i : Except CatalogError Instruction) :
    Agree Alike Eq (prependRestore i) (prependRestore i) := by
  cases i with
  | error e => exact .of_throw e
  | ok i =>
    apply Agree.of_modify
    intro f g hfg
    refine ⟨hfg.resources, hfg.save, ?_⟩
    rw [hfg.restore]

theorem agree_spillToMemory (address : String) :
    Agree Alike Eq (spillToMemory m r address) (spillToMemory m r address) := by
  unfold spillToMemory
  by_cases hr : r = m.target.primary
  · simp only [ne_eq, hr, not_true_eq_false, ite_false]
    exact (agree_appendSave _).bind fun _ _ _ => agree_prependRestore _
  · simp only [ne_eq, hr, not_false_eq_true, ite_true]
    exact (agree_appendSave _).bind fun _ _ _ => (agree_appendSave _).bind fun _ _ _ =>
      (agree_prependRestore _).bind fun _ _ _ => agree_prependRestore _

theorem agree_spillToStack (push pop : Instruction) :
    Agree Alike Eq (spillToStack push pop) (spillToStack push pop) := by
  -- The pop is looked for in the frame as the push has left it.
  have hpop : Agree Alike Eq
      (do unless (← get).restore.items.contains (.instr pop) do prependRestore (.ok pop) : FrameM Unit)
      (do unless (← get).restore.items.contains (.instr pop) do prependRestore (.ok pop)) := by
    apply Agree.of_get.bind
    intro f g hfg
    rw [hfg.restore]
    split
    · exact .of_pure rfl
    · exact agree_prependRestore _
  unfold spillToStack
  apply Agree.of_get.bind
  intro f g hfg
  rw [hfg.save]
  split
  · exact hpop
  · exact (agree_appendSave _).bind fun _ _ _ => hpop

/-- An attempt to free a register sees nothing of a frame in which frames that are alike could
differ. -/
theorem agree_spill (m : Machine) : Agree Alike Eq (spill m) (spill m) := by
  apply Agree.of_get.bind
  intro f g hfg
  rw [hfg.resources.ofResources_eq]
  cases hlowest : lowestUngranted? (ResourceSet.ofResources g.resources) with
  | none => exact .of_pure rfl
  | some r =>
    have hr := (lowestUngranted?_eq_some hlowest).1
    simp only
    cases hf : exchangeMemory? r.name f.resources with
    | some found =>
      obtain ⟨address, rs⟩ := found
      obtain ⟨qs, hg, hsame⟩ := hfg.resources.exchange hr hf
      rw [hg]
      have hmodify : Agree Alike Eq (modify fun f : Frame => { f with resources := rs } : FrameM PUnit)
          (modify fun f => { f with resources := qs }) := by
        apply Agree.of_modify
        intro f g hfg
        exact ⟨hsame, hfg.save, hfg.restore⟩
      exact (agree_spillToMemory address).bind fun _ _ _ => hmodify.bind fun _ _ _ => .of_pure rfl
    | none =>
      rw [hfg.resources.exchange_none hf, hfg.resources.stack]
      simp only
      split
      · have hmodify : Agree Alike Eq
            (modify fun f : Frame => { f with
              resources := f.resources ++ [Resource.register r.name] } : FrameM PUnit)
            (modify fun f => { f with resources := f.resources ++ [Resource.register r.name] }) := by
          apply Agree.of_modify
          intro f g hfg
          exact ⟨hfg.resources.append hr, hfg.save, hfg.restore⟩
        split
        · exact .of_throw _
        · exact .of_pure rfl
        · exact (agree_spillToStack _ _).bind fun _ _ _ => hmodify.bind fun _ _ _ => .of_pure rfl
      · exact .of_pure rfl

end Frame

/-! ## Builds -/

namespace Synthesizer

variable {f g : Frame}

theorem agree_spill (y : Synthesizer) (hfg : f.Alike g) :
    Agree Eq (fun p q => p.1 = q.1 ∧ p.2.Alike q.2) (y.spill f) (y.spill g) := by
  have hrun := Frame.agree_spill y.machine f g hfg
  unfold spill
  generalize (Frame.spill y.machine).run f = result, (Frame.spill y.machine).run g = result' at hrun
  cases hrun with
  | error state => exact .of_pure ⟨rfl, state⟩
  | ok state value =>
    subst value
    exact (Agree.refl _).bind fun _ _ _ => .of_pure ⟨rfl, state⟩

theorem agree_freeRegisters? (y : Synthesizer) (test : SpillTest) (window : Window) (n : Nat)
    (hfg : f.Alike g) : Agree Eq (Option.Rel Frame.Alike) (y.freeRegisters? test window n f)
      (y.freeRegisters? test window n g) := by
  induction n generalizing f g with
  | zero => exact .of_pure (.some hfg)
  | succ n ih =>
    unfold freeRegisters?
    simp only
    rw [hfg.save, hfg.restore, hfg.resources.ofResources_eq]
    apply (Agree.refl _).bind
    rintro asked _ rfl
    cases asked with
    | false => exact .of_pure (.some hfg)
    | true =>
      apply (y.agree_spill hfg).bind
      rintro ⟨result, f'⟩ ⟨_, g'⟩ ⟨rfl, hfg'⟩
      apply (Agree.refl _).bind
      rintro outcome _ rfl
      cases outcome with
      | memory r => exact ih hfg'
      | stack r => exact ih hfg'
      | nothingToFree => exact .of_pure (.some hfg')
      | infeasible => exact .of_pure .none

theorem agree_routine? (y : Synthesizer) (test : SpillTest) (r : Request) {resources : List Resource}
    (h : SameOffers resources r.resources) :
    Agree Eq Eq (y.routine? test { r with resources }) (y.routine? test r) := by
  have hstart : Frame.Alike { resources } { resources := r.resources } := ⟨h, rfl, rfl⟩
  apply (Agree.refl _).bind
  rintro ret? _ rfl
  apply (y.agree_freeRegisters? test _ _ hstart).bind
  intro f? g? hframe
  cases hframe with
  | none => exact .of_pure rfl
  | some hfg =>
    simp only
    rw [hfg.save, hfg.restore, hfg.resources.ofResources_eq, hfg.resources.addresses]
    exact .refl _

/-- For lists that offer the same, building answers the same: the same routine and statistics, or the
same error. -/
theorem same_offers_same_build (y : Synthesizer) (test : SpillTest) (r : Request)
    {resources : List Resource} (h : SameOffers resources r.resources) :
    y.buildWith test { r with resources } = y.buildWith test r := by
  unfold buildWith
  rw [(y.agree_routine? test r h).run_eq]
  rfl

/-- A request for about one hundred thousand cycles. -/
def longRequest (resources : List Resource) : Request where
  min := 100000
  max := 110000
  resources := resources
  budget := 12

/-- A cell and register B, out of order and among elements that offer nothing. -/
def untidyList : List Resource :=
  [⟨.register "C", false⟩, .register "B", ⟨.memory "3000H", false⟩, .register "X",
    .memory "2000H", .register "B", ⟨.stack, false⟩]

set_option maxRecDepth 100000 in
/-- Register A is saved in the one cell that is offered, wherever that stands. -/
theorem same_offers_same_build_untidy : SameOffers untidyList [.memory "2000H", .register "B"] ∧
    ∃ routine stats, routine.save.items ≠ [] ∧
      I8085.synthesizer.build (longRequest [.memory "2000H", .register "B"]) =
        .ok (some routine, stats) ∧
      I8085.synthesizer.build (longRequest untidyList) = .ok (some routine, stats) := by
  have hsame : SameOffers untidyList [.memory "2000H", .register "B"] := by
    have huntidy : untidyList.filterMap Resource.register? = [.b, .b] := by decide +kernel
    have htidy : [Resource.memory "2000H", .register "B"].filterMap Resource.register? = [.b] := by
      decide +kernel
    refine ⟨fun q => ?_, rfl, rfl⟩
    rw [← List.mem_filterMap, ← List.mem_filterMap, huntidy, htidy]
    simp
  have hbuilt : (built? (I8085.synthesizer.build
      (longRequest [.memory "2000H", .register "B"]))).any
        (fun routine => routine.save.items ≠ []) = true := by
    decide +kernel
  obtain ⟨routine, stats, h, hsave⟩ := exists_of_any_built? hbuilt
  refine ⟨hsame, routine, stats, of_decide_eq_true hsave, h, ?_⟩
  rw [← h]
  exact same_offers_same_build I8085.synthesizer _
    (longRequest [.memory "2000H", .register "B"]) hsame

end Synthesizer

end DelaySynth
