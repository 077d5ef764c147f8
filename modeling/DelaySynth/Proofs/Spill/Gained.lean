import DelaySynth.Proofs.SideBySide
import DelaySynth.Proofs.Spill.Progress
import DelaySynth.Proofs.Target.I8085

/-!
# Registers gained in a build

The search for a main part frees no registers, whether it finds one or fails. So a build has counted in
the end as many freed registers as were gained before the main part was sought.

* `FreesNone`: runs that free no register.
* `freesNone_mainFor?`: the search for a main part is one of these.
* `freed_of_build`: a build counts the registers that have been gained.
* `registers_freed_one_by_one`: each attempt to free a register, how the repetition of attempts ends,
  and what is counted.
-/

namespace DelaySynth.Synthesizer

variable {y : Synthesizer} {test : SpillTest}

/-! ## Runs that free no register -/

/-- A run ends in a session, whether it returns or fails. -/
inductive EndsIn {α : Type} : EStateM.Result SynthError Session α → Session → Prop
  | ok {a : α} {s : Session} : EndsIn (.ok a s) s
  | error {e : SynthError} {s : Session} : EndsIn (.error e s) s

/-- Runs that free no register, also when they fail. -/
def FreesNone {α : Type} (x : SearchM α) : Prop :=
  ∀ n, Ensures (fun s : Session => s.stats.registersFreed = n) (fun _ _ => True) x fun _ => True

namespace FreesNone

variable {α β : Type}

theorem pure (a : α) : FreesNone (pure a) :=
  fun _ => .of_pure trivial

theorem record {f : Stats → Stats} (hf : ∀ s, (f s).registersFreed = s.registersFreed) :
    FreesNone (SearchM.record f) :=
  fun _ => .of_modify fun s hs => (hf s.stats).trans hs

theorem bind {f : α → SearchM β} {x : SearchM α} (hx : FreesNone x) (hf : ∀ a, FreesNone (f a)) :
    FreesNone (x >>= f) :=
  fun n => (hx n).bind fun a _ => hf a n

theorem registersFreed_eq {x : SearchM α} (hx : FreesNone x) {s t : Session}
    (h : EndsIn (x.run s) t) : t.stats.registersFreed = s.stats.registersFreed := by
  have hends := hx _ s rfl
  generalize x.run s = result at h hends
  cases h with
  | ok => exact hends.1
  | error => exact hends.1

theorem loopRelation (limit : Nat) : LoopRelation limit limit fun x _ => FreesNone x where
  pure := pure
  ofCatalog x := fun _ => SearchM.ensures_ofCatalog x
  recordLoop width := by
    cases width with
    | wide => exact record (f := fun s => { s with wideLoops := s.wideLoops + 1 }) fun _ => rfl
    | narrow => exact record (f := fun s => { s with narrowLoops := s.narrowLoops + 1 }) fun _ => rfl
  recordCandidate := record (f := fun s => { s with candidates := s.candidates + 1 }) fun _ => rfl
  recordNested := record (f := fun s => { s with nestedLoops := s.nestedLoops + 1 }) fun _ => rfl
  charge _ := fun _ => SearchM.ensures_charge _ fun _ hs => hs
  bind := bind

theorem obtain (keep : Bool) (limit : Nat) (c : Catalog) (key : TableKey) :
    FreesNone (Reach.obtain keep limit c key) :=
  (loopRelation limit).obtain (fun _ => Ensures.of_get.mono fun _ _ => trivial) (record fun _ => rfl)
    (record fun _ => rfl) (fun _ _ _ => .of_modify fun _ hs => hs) keep c key

end FreesNone

theorem loopsRelated_freesNone (y : Synthesizer) : LoopsRelated y y fun x _ => FreesNone x where
  toLoopRelation := FreesNone.loopRelation _
  machine := rfl
  table key := FreesNone.obtain _ _ _ key

theorem freesNone_attempts? {seek : Nat → SearchM (Option Code)}
    (hseek : ∀ budget, FreesNone (seek budget)) (budget n attempt : Nat) :
    FreesNone (attempts? seek budget n attempt) := by
  have hattempt (attempt : Nat) : FreesNone (attempt? seek budget attempt) := by
    unfold attempt?
    split
    · exact (FreesNone.record (f := fun s => { s with budgetRetries := s.budgetRetries + 1 })
        fun _ => rfl).bind fun _ => hseek _
    · exact hseek _
  induction n generalizing attempt with
  | zero => exact hattempt attempt
  | succ n ih =>
    refine (hattempt attempt).bind fun found => ?_
    cases found with
    | some main => exact .pure _
    | none => exact ih (attempt + 1)

theorem freesNone_mainFor? (y : Synthesizer) (r : Request) (ret? : Option Instruction) (f : Frame) :
    FreesNone (y.mainFor? r ret? f) :=
  freesNone_attempts? (fun _ => (loopsRelated_freesNone y).main? _ _ _ _) _ _ _

/-! ## Builds -/

/-- A search for a routine counts as many freed registers as have been gained before the main part is
sought. -/
theorem registersFreed_of_routine? {r : Request} {ret? : Option Instruction} {n : Nat} {g : Frame}
    {t : Session} {result : EStateM.Result SynthError Session (Option Frame)}
    (hret : (y.returnFor? r).run {} = .ok ret? {})
    (hfreed : y.Freed test (r.innerWindow ret?) { resources := r.resources } {} n g t result)
    {s : Session} (h : EndsIn ((y.routine? test r).run {}) s) :
    s.stats.registersFreed = n := by
  have hcounted : t.stats.registersFreed = n := hfreed.counted.trans (Nat.zero_add n)
  have hle : n ≤ Register.count := Nat.le_trans hfreed.le (Nat.sub_le _ _)
  have hframe := hfreed.turns.run_freeRegisters? hfreed.last (Nat.lt_succ_of_le hle)
  cases hfreed.last with
  | enough =>
    rw [run_routine?_of_frame hret hframe] at h
    have hmain := ((freesNone_mainFor? y r ret? g).bind fun _ => .pure _).registersFreed_eq h
    exact hmain.trans hcounted
  | infeasible =>
    unfold routine? at h
    unfold Request.innerWindow at hframe
    rw [run_bind_of_ok hret, run_bind_of_ok hframe] at h
    cases h
    exact hcounted
  | failure =>
    unfold routine? at h
    unfold Request.innerWindow at hframe
    rw [run_bind_of_ok hret, EStateM.run_bind, hframe] at h
    cases h
    exact hcounted

/-- Where the return cannot be had, a build fails because of the catalog. -/
theorem run_returnFor?_eq_error {r : Request} {e : SynthError} {s t : Session}
    (h : (y.returnFor? r).run s = .error e t) : ∃ lack, e = .incompatibleCatalog lack := by
  unfold returnFor? at h
  split at h
  · rw [map_eq_pure_bind] at h
    rcases run_bind_eq_error.mp h with h | ⟨_, _, -, ⟨⟩⟩
    cases hret : y.machine.ret with
    | ok i =>
      rw [hret] at h
      cases h
    | error lack =>
      rw [hret] at h
      cases h
      exact ⟨lack, rfl⟩
  · cases h

theorem freed_of_build {r : Request} {found : Option (Routine Code)} {stats : Stats}
    (h : y.buildWith test r = .ok (found, stats)) : ∃ ret? g t result,
      ret?.isSome = r.includeReturn ∧ (∀ i ∈ ret?, y.machine.ret = .ok i) ∧
      y.Freed test (r.innerWindow ret?) { resources := r.resources } {} stats.registersFreed g t
        result := by
  obtain ⟨-, s, rfl, hrun⟩ := run_of_buildWith h
  cases hret : (y.returnFor? r).run {} with
  | ok ret? t =>
    obtain ⟨hincluded, hreturns, rfl⟩ := run_returnFor?_eq_ok hret
    obtain ⟨n, g, t, result, hfreed⟩ :=
      exists_freed y test (r.innerWindow ret?) { resources := r.resources } {}
    have hends : EndsIn ((y.routine? test r).run {}) s := by
      rcases hrun with ⟨hrun, -⟩ | ⟨-, -, limit, hrun⟩
      · rw [hrun]
        exact .ok
      · rw [hrun]
        exact .error
    rw [registersFreed_of_routine? hret hfreed hends]
    exact ⟨ret?, g, t, result, hincluded, hreturns, hfreed⟩
  | error e t =>
    obtain ⟨lack, rfl⟩ := run_returnFor?_eq_error hret
    have hfails : (y.routine? test r).run {} = .error (.incompatibleCatalog lack) t := by
      unfold routine?
      rw [EStateM.run_bind, hret]
    rw [hfails] at hrun
    rcases hrun with ⟨⟨⟩, -⟩ | ⟨-, -, _, ⟨⟩⟩

/-- Every attempt to free a register returns, and what it leaves behind is as its outcome tells
(`Attempted`); there is nothing to free if and only if all registers are granted. The attempts that are
made as long as `test` asks for one are at most as many as registers are missing, each of them is
counted, and so is no other. A bound on the attempts above that makes no difference. What is counted in
the end, whether or not a routine is found, is the number of registers gained. -/
theorem registers_freed_one_by_one (y : Synthesizer) (test : SpillTest) :
    (∀ f s, ∃ result g t, (y.spill f).run s = .ok (result, g) t ∧ Attempted f s g t result ∧
      (result = .ok .nothingToFree ↔
        ∀ q : Register, q.Named → q ∈ ResourceSet.ofResources f.resources)) ∧
    (∀ window f s, ∃ n g t result, y.Freed test window f s n g t result ∧
      n ≤ Register.count - (ResourceSet.ofResources f.resources).registerCount ∧
      ∀ fuel, n < fuel → (y.freeRegisters? test window fuel f).run s = result) ∧
    ∀ r found stats, y.buildWith test r = .ok (found, stats) → ∃ ret? g t result,
      ret?.isSome = r.includeReturn ∧ (∀ i ∈ ret?, y.machine.ret = .ok i) ∧
      y.Freed test (r.innerWindow ret?) { resources := r.resources } {} stats.registersFreed g t
        result := by
  refine ⟨fun f s => ?_, fun window f s => ?_, fun r found stats h => freed_of_build h⟩
  · obtain ⟨result, g, t, hspill⟩ := exists_run_spill y f s
    exact ⟨result, g, t, hspill, attempted_of_run hspill, nothingToFree_iff hspill⟩
  · obtain ⟨n, g, t, result, hfreed⟩ := exists_freed y test window f s
    exact ⟨n, g, t, result, hfreed, hfreed.le, fun fuel hfuel =>
      hfreed.turns.run_freeRegisters? hfreed.last hfuel⟩

/-- Asks for registers until there are two. -/
def twoRegisters : SpillTest := fun _ granted => .ok (granted.registerCount < 2)

/-- A request that grants no register, but a memory cell and the stack. -/
def savingRequest : Request where
  min := 200
  max := 203
  resources := [.memory "2000H", .stack]
  budget := 16

/-- One register is saved in the cell and one on the stack. -/
theorem registers_freed_one_by_one_two : ∃ found stats,
    I8085.synthesizer.buildWith twoRegisters savingRequest = .ok (found, stats) ∧
    found.isSome ∧ stats.memorySpills = 1 ∧ stats.stackSpills = 1 ∧
    ∃ g : Frame, (ResourceSet.ofResources g.resources).registerCount = 2 := by
  have hbuilt : (I8085.synthesizer.buildWith twoRegisters savingRequest).toOption.map
      (fun p => (p.1.isSome, p.2.memorySpills, p.2.stackSpills)) = some (true, 1, 1) := by
    decide +kernel
  cases h : I8085.synthesizer.buildWith twoRegisters savingRequest with
  | error e =>
    rw [h] at hbuilt
    cases hbuilt
  | ok answer =>
    obtain ⟨found, stats⟩ := answer
    rw [h] at hbuilt
    obtain ⟨hfound, hmemory, hstack⟩ : found.isSome = true ∧ stats.memorySpills = 1 ∧
        stats.stackSpills = 1 := by simpa [Except.toOption] using hbuilt
    obtain ⟨-, -, hcounted⟩ := registers_freed_one_by_one I8085.synthesizer twoRegisters
    obtain ⟨_, g, _, _, -, -, hfreed⟩ := hcounted savingRequest found stats h
    refine ⟨found, stats, rfl, hfound, hmemory, hstack, g, ?_⟩
    have hnone : (ResourceSet.ofResources savingRequest.resources).registerCount = 0 := by
      decide +kernel
    rw [hfreed.gained, hnone, Stats.registersFreed, hmemory, hstack]

end DelaySynth.Synthesizer
