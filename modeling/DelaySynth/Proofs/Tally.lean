import DelaySynth.Proofs.SideBySide

/-!
# What is counted around a main part

The search for a main part counts its tables, loops and steps. It does not count saved registers or
repeated searches: these are counted around it, where registers are freed and attempts are made. So at
the end of a build the number of repeated searches is the number of the attempt that was successful.

* `KeepsOuter`: runs that save no register and repeat no search.
* `keepsOuter_main?`: the search for a main part is one of these.
* `FirstFound`: an attempt is the first one to find a main part.
* `firstFound_of_attempts?`: the statistics tell which attempt it is.
* `chosen_of_build`, `mainFor_of_build`: what this means for a routine.
-/

namespace DelaySynth

open SearchM

/-- The numbers that are counted outside the search for a main part. -/
structure Stats.Outer where
  /-- Registers saved in memory. -/
  memorySpills : Nat
  /-- Registers saved on the stack. -/
  stackSpills : Nat
  /-- Searches repeated with one more instruction. -/
  budgetRetries : Nat

/-- What is counted outside the search for a main part. -/
def Stats.outer (s : Stats) : Stats.Outer :=
  ⟨s.memorySpills, s.stackSpills, s.budgetRetries⟩

/-- Runs that return have saved no register and repeated no search. -/
def KeepsOuter {α : Type} (x : SearchM α) : Prop :=
  ∀ s a t, x.run s = .ok a t → t.stats.outer = s.stats.outer

namespace KeepsOuter

variable {α β : Type}

theorem pure (a : α) : KeepsOuter (pure a) := by
  intro s b t h
  obtain ⟨-, rfl⟩ := run_pure_eq_ok.mp h
  rfl

theorem get : KeepsOuter (get : SearchM Session) := by
  intro s a t h
  obtain ⟨-, rfl⟩ := run_get_eq_ok.mp h
  rfl

theorem modify {f : Session → Session} (hf : ∀ s, (f s).stats.outer = s.stats.outer) :
    KeepsOuter (modify f) := by
  intro s a t h
  obtain rfl := run_modify_eq_ok.mp h
  exact hf s

theorem record {f : Stats → Stats} (hf : ∀ s, (f s).outer = s.outer) : KeepsOuter (record f) :=
  modify fun s => hf s.stats

theorem bind {x : SearchM α} {f : α → SearchM β} (hx : KeepsOuter x) (hf : ∀ a, KeepsOuter (f a)) :
    KeepsOuter (x >>= f) := by
  intro s b t h
  obtain ⟨a, u, hfirst, hsecond⟩ := run_bind_eq_ok.mp h
  exact (hf a u b t hsecond).trans (hx s a u hfirst)

theorem loopRelation (limit : Nat) : LoopRelation limit limit fun x _ => KeepsOuter x where
  pure := pure
  ofCatalog x := by
    intro s a t h
    obtain ⟨-, rfl⟩ := run_ofCatalog_eq_ok.mp h
    rfl
  recordLoop width := by
    cases width with
    | wide => exact record (f := fun s => { s with wideLoops := s.wideLoops + 1 }) fun _ => rfl
    | narrow => exact record (f := fun s => { s with narrowLoops := s.narrowLoops + 1 }) fun _ => rfl
  recordCandidate := record (f := fun s => { s with candidates := s.candidates + 1 }) fun _ => rfl
  recordNested := record (f := fun s => { s with nestedLoops := s.nestedLoops + 1 }) fun _ => rfl
  charge count := by
    intro s a t h
    obtain ⟨rfl, -⟩ := run_charge_eq_ok h
    rfl
  bind := bind

theorem obtain (keep : Bool) (limit : Nat) (c : Catalog) (key : TableKey) :
    KeepsOuter (Reach.obtain keep limit c key) :=
  (loopRelation limit).obtain get (record fun _ => rfl) (record fun _ => rfl)
    (fun _ _ => modify fun _ => rfl) keep c key

end KeepsOuter

namespace Synthesizer

variable {y : Synthesizer} {test : SpillTest} {r : Request} {lacks : CatalogError → Prop}

theorem loopsRelated_keepsOuter (y : Synthesizer) : LoopsRelated y y fun x _ => KeepsOuter x where
  toLoopRelation := KeepsOuter.loopRelation _
  machine := rfl
  table key := KeepsOuter.obtain _ _ _ key

theorem keepsOuter_main? (window : Window) (granted : ResourceSet) (memory : List String)
    (budget : Nat) : KeepsOuter (y.main? window granted memory budget) :=
  (loopsRelated_keepsOuter y).main? window granted memory budget

/-! ## Attempts -/

theorem budgetRetries_of_keepsOuter {α : Type} {x : SearchM α} {s t : Session} {a : α}
    (hx : KeepsOuter x) (h : x.run s = .ok a t) : t.stats.budgetRetries = s.stats.budgetRetries :=
  congrArg Stats.Outer.budgetRetries (hx s a t h)

/-- All attempts but the first are counted. -/
theorem budgetRetries_of_attempt? {seek : Nat → SearchM (Option Code)}
    (hseek : ∀ budget, KeepsOuter (seek budget)) {budget attempt : Nat} {found : Option Code}
    {s t : Session} (h : (attempt? seek budget attempt).run s = .ok found t) :
    t.stats.budgetRetries = s.stats.budgetRetries + min attempt 1 := by
  unfold attempt? at h
  split at h
  · rename_i hlater
    obtain ⟨_, u, hrecord, h⟩ := run_bind_eq_ok.mp h
    obtain rfl := run_modify_eq_ok.mp hrecord
    rw [budgetRetries_of_keepsOuter (hseek _) h]
    show s.stats.budgetRetries + 1 = _
    omega
  · rename_i hfirst
    rw [budgetRetries_of_keepsOuter (hseek _) h]
    omega

/-- Of the attempts from `first` to `last`, the attempt `k` finds `main`, and none before it finds
anything. -/
structure FirstFound (P : Nat → Code → Prop) (budget first last k : Nat) (main : Code) : Prop where
  first_le : first ≤ k
  le_last : k ≤ last
  found : P (min (budget + k) maxBudget) main
  none_before : ∀ j, first ≤ j → j < k → ∀ earlier, ¬P (min (budget + j) maxBudget) earlier

/-- With the largest budget, an attempt does what the attempt before it does. So if it is the first one
to find anything, then nothing of its budget has been cut off. -/
theorem FirstFound.le_maxBudget {P : Nat → Code → Prop} {budget last k : Nat} {main : Code}
    (hbudget : budget ≤ maxBudget) (h : FirstFound P budget 0 last k main) :
    budget + k ≤ maxBudget := by
  by_contra hlt
  have hsame : min (budget + k) maxBudget = min (budget + (k - 1)) maxBudget := by omega
  exact h.none_before (k - 1) (Nat.zero_le _) (by omega) main (hsame ▸ h.found)

/-- If the attempts before this one have been counted, then the statistics tell which attempt is the
first one to find a main part. -/
theorem firstFound_of_attempts? {P : Nat → Code → Prop} {seek : Nat → SearchM (Option Code)}
    (hseek : ∀ budget, KeepsOuter (seek budget))
    (hfinds : ∀ budget, y.Finds lacks (seek budget) (Answers (P budget)))
    {budget n attempt : Nat} {main : Code} {s t : Session} (hs : s.Faithful y.machine.catalog)
    (hcounted : s.stats.budgetRetries = attempt - 1)
    (h : (attempts? seek budget n attempt).run s = .ok (some main) t) :
    FirstFound P budget attempt (attempt + n) t.stats.budgetRetries main := by
  -- An attempt that succeeds has just been counted.
  have hlast {s : Session} {attempt n : Nat} (hs : s.Faithful y.machine.catalog)
      (hcounted : s.stats.budgetRetries = attempt - 1)
      (h : (attempt? seek budget attempt).run s = .ok (some main) t) :
      FirstFound P budget attempt (attempt + n) t.stats.budgetRetries main := by
    have htold : t.stats.budgetRetries = attempt := by
      rw [budgetRetries_of_attempt? hseek h]
      omega
    rw [htold]
    exact ⟨Nat.le_refl _, Nat.le_add_right _ _,
      ((finds_attempt? hfinds budget attempt).of_ok hs h).2.sound main rfl, fun j hle hlt => by omega⟩
  induction n generalizing attempt s with
  | zero => exact hlast hs hcounted h
  | succ n ih =>
    obtain ⟨found, u, hfirst, hrest⟩ := run_bind_eq_ok.mp h
    cases found with
    | some main' =>
      obtain ⟨⟨⟩, rfl⟩ := run_pure_eq_ok.mp hrest
      exact hlast hs hcounted hfirst
    | none =>
      obtain ⟨hu, hmissed⟩ := (finds_attempt? hfinds budget attempt).of_ok hs hfirst
      have hnext : u.stats.budgetRetries = attempt + 1 - 1 := by
        rw [budgetRetries_of_attempt? hseek hfirst]
        omega
      have hlater := ih hu hnext hrest
      refine ⟨Nat.le_of_succ_le hlater.first_le, by have := hlater.le_last; omega, hlater.found,
        fun j hle hlt => ?_⟩
      rcases Nat.eq_or_lt_of_le hle with rfl | hle
      · exact hmissed.complete rfl
      · exact hlater.none_before j hle hlt

/-! ## Builds -/

theorem budgetRetries_of_spill {f : Frame} {result : Except CatalogError SpillOutcome × Frame}
    {s t : Session} (h : (y.spill f).run s = .ok result t) :
    t.stats.budgetRetries = s.stats.budgetRetries := by
  unfold spill at h
  split at h
  · rename_i outcome _ _
    obtain ⟨_, u, hrecord, h⟩ := run_bind_eq_ok.mp h
    obtain ⟨-, rfl⟩ := run_pure_eq_ok.mp h
    obtain rfl := run_modify_eq_ok.mp hrecord
    cases outcome <;> rfl
  · obtain ⟨-, rfl⟩ := run_pure_eq_ok.mp h
    rfl

/-- Freeing registers repeats no search. -/
theorem budgetRetries_of_freeRegisters? {window : Window} {n : Nat} {f : Frame} {f? : Option Frame}
    {s t : Session} (h : (y.freeRegisters? test window n f).run s = .ok f? t) :
    t.stats.budgetRetries = s.stats.budgetRetries := by
  induction n generalizing f s with
  | zero =>
    obtain ⟨-, rfl⟩ := run_pure_eq_ok.mp h
    rfl
  | succ n ih =>
    obtain ⟨asked, _, hasked, h⟩ := run_bind_eq_ok.mp h
    obtain ⟨-, rfl⟩ := run_ofCatalog_eq_ok.mp hasked
    cases asked with
    | false =>
      obtain ⟨-, rfl⟩ := run_pure_eq_ok.mp h
      rfl
    | true =>
      obtain ⟨⟨result, f'⟩, u, hspill, h⟩ := run_bind_eq_ok.mp h
      obtain ⟨outcome, _, hresult, h⟩ := run_bind_eq_ok.mp h
      obtain ⟨-, rfl⟩ := run_ofCatalog_eq_ok.mp hresult
      rw [← budgetRetries_of_spill hspill]
      cases outcome with
      | memory r => exact ih h
      | stack r => exact ih h
      | nothingToFree | infeasible =>
        obtain ⟨-, rfl⟩ := run_pure_eq_ok.mp h
        rfl

/-- The main part of a routine is chosen in the attempt that the statistics tell, and no attempt before
it finds one. -/
theorem chosen_of_build {routine : Routine Code} {stats : Stats}
    (h : y.buildWith test r = .ok (some routine, stats)) : ∃ f, y.RoutineFound test r f routine ∧
      FirstFound (fun budget => y.MainChosen (Resource.addresses f.resources) budget
          ((r.innerWindow routine.ret?).minus (f.save.duration + f.restore.duration))
          (ResourceSet.ofResources f.resources))
        (r.mainBudget routine.ret? f) 0 y.config.budgetRetries stats.budgetRetries routine.main := by
  obtain ⟨f, hfound⟩ := routineFound_of_build h
  obtain ⟨-, t, rfl, ⟨hrun, -⟩ | ⟨⟨⟩, -⟩⟩ := run_of_buildWith h
  obtain ⟨s, hframe⟩ := hfound.frame
  have hret := run_returnFor?_of_included hfound.included hfound.returns {}
  rw [run_routine?_of_frame hret hframe] at hrun
  obtain ⟨main?, u, hmain, hrun⟩ := run_bind_eq_ok.mp hrun
  obtain ⟨hroutine, rfl⟩ := run_pure_eq_ok.mp hrun
  obtain ⟨main, rfl, hbuilt⟩ := Option.map_eq_some_iff.mp hroutine
  obtain rfl : main = routine.main := congrArg Routine.main hbuilt
  -- When the attempts begin, none has been counted.
  have hfaithful : s.Faithful y.machine.catalog :=
    ((finds_freeRegisters? _ _ _).of_ok Session.faithful_empty hframe).1
  have hcounted : s.stats.budgetRetries = 0 - 1 := budgetRetries_of_freeRegisters? hframe
  have hlacks : y.machine.LoopsLack fun _ => True := fun _ _ _ _ => trivial
  have hfirst := firstFound_of_attempts? (fun _ => keepsOuter_main? _ _ _ _)
    (fun _ => finds_chosen? hlacks _ _ _ _) hfaithful hcounted hmain
  rw [Nat.zero_add] at hfirst
  exact ⟨f, hfound, hfirst⟩

theorem mainFor_of_build {routine : Routine Code} {stats : Stats}
    (h : y.buildWith test r = .ok (some routine, stats)) : ∃ f, y.RoutineFound test r f routine ∧
      stats.budgetRetries ≤ y.config.budgetRetries ∧
      y.MainFor r routine.ret? f stats.budgetRetries routine.main := by
  obtain ⟨f, hfound, hfirst⟩ := chosen_of_build h
  exact ⟨f, hfound, hfirst.le_last, hfirst.found.found⟩

end Synthesizer

end DelaySynth
