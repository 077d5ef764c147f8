import DelaySynth.Build
import DelaySynth.Proofs.Search.Found
import DelaySynth.Proofs.Spill.Resources

/-!
# What a built routine consists of

A routine that is built consists of the return, if one is asked for, of the frame in which the
freeing of registers ends, and of a main part for the window and the budget that these leave.
`Synthesizer.RoutineFound` keeps these facts together, so that the properties of routines follow from
those of frames and of found loops.

* `finds_main?`, `finds_chosen?`: the main parts, and the one among them that is chosen.
* `spills_of_freeRegisters?`: the frame is reached by successful attempts to free registers.
* `stuck_of_freeRegisters?`: without a frame, one more register is asked for than can be saved.
* `routineFound_of_run`, `routineFound_of_build`: a routine that is returned is one of these.
* `run_routine?_eq_ok`: without a routine there is no frame, or no attempt finds a main part in it.
* `run_of_buildWith`: what a build answers is what the search ended with, unless the limit stopped it.
-/

namespace DelaySynth.Request

/-- The window for what a routine holds besides its return. -/
def innerWindow (r : Request) (ret? : Option Instruction) : Window :=
  r.window.minus ((ret?.map Instruction.duration).getD 0)

/-- The budget for the main part of a routine with a return and a frame. -/
def mainBudget (r : Request) (ret? : Option Instruction) (f : Frame) : Nat :=
  r.budget - ret?.toList.length - (f.save.length + f.restore.length)

end DelaySynth.Request

namespace DelaySynth.Synthesizer

open SearchM

variable {y : Synthesizer} {test : SpillTest} {r : Request} {lacks : CatalogError → Prop}

/-! ## The main part -/

/-- The main parts for a window under a grant: flat sequences and loops. -/
inductive MainFound (y : Synthesizer) (memory : List String) (budget : Nat) (window : Window)
    (granted : ResourceSet) : Code → Prop
  | flat {g : Group Code} (nonneg : 0 ≤ window.max)
      (within : window.min ≤ (Reach.ofKey y.machine.catalog { budget, granted, memory }).top)
      (found : (Reach.ofKey y.machine.catalog { budget, granted, memory }).lookupWindow window =
        some g) : MainFound y memory budget window granted (.group g)
  | loop {l : Loop Code} (nonneg : 0 ≤ window.max)
      (found : y.LoopFound memory budget window granted 0 l) :
      MainFound y memory budget window granted (.loop l)

theorem MainFound.nonneg {memory : List String} {budget : Nat} {window : Window}
    {granted : ResourceSet} {main : Code} (h : y.MainFound memory budget window granted main) :
    0 ≤ window.max := by
  cases h <;> assumption

/-- The main part that is chosen: it is a loop only if there is no flat sequence. -/
structure MainChosen (y : Synthesizer) (memory : List String) (budget : Nat) (window : Window)
    (granted : ResourceSet) (main : Code) : Prop where
  found : y.MainFound memory budget window granted main
  loop_last : ∀ l, main = .loop l → ∀ g, ¬y.MainFound memory budget window granted (.group g)

theorem MainFound.chosen_group {memory : List String} {budget : Nat} {window : Window}
    {granted : ResourceSet} {g : Group Code}
    (h : y.MainFound memory budget window granted (.group g)) :
    y.MainChosen memory budget window granted (.group g) := by
  refine ⟨h, fun l heq => ?_⟩
  cases heq

theorem finds_chosen? (hlacks : y.machine.LoopsLack lacks) (window : Window) (granted : ResourceSet)
    (memory : List String) (budget : Nat) :
    y.Finds lacks (y.main? window granted memory budget)
      (Answers (y.MainChosen memory budget window granted)) := by
  unfold main?
  split
  · exact .of_pure (.of_none fun main hmain => by have := hmain.found.nonneg; omega)
  rename_i hnonneg
  refine (Reach.finds_obtain _ _).bind fun table htable => ?_
  subst htable
  simp only
  split
  · rename_i flat hflat
    split at hflat
    · rename_i hwithin
      exact .of_pure (.of_some (MainFound.flat (by omega) hwithin hflat).chosen_group)
    · cases hflat
  · rename_i hflat
    have hloop (g : Group Code) : ¬y.MainFound memory budget window granted (.group g) := by
      rintro (⟨-, within, found⟩ | _)
      rw [if_pos within, found] at hflat
      cases hflat
    refine (finds_loop? hlacks _ _ _ _).bind fun found hfound => .of_pure ?_
    cases found with
    | some l => exact .of_some ⟨.loop (by omega) (hfound.sound l rfl), fun _ _ => hloop⟩
    | none =>
      refine .of_none fun main hmain => ?_
      cases hmain.found with
      | flat nonneg within found => exact hloop _ (.flat nonneg within found)
      | loop _ found => exact hfound.complete rfl _ found

/-- Where there is a main part, one is chosen. -/
theorem MainFound.exists_chosen {memory : List String} {budget : Nat} {window : Window}
    {granted : ResourceSet} {main : Code} (h : y.MainFound memory budget window granted main) :
    ∃ chosen, y.MainChosen memory budget window granted chosen := by
  by_cases hflat : ∃ g, y.MainFound memory budget window granted (.group g)
  · obtain ⟨g, hg⟩ := hflat
    exact ⟨.group g, hg.chosen_group⟩
  · exact ⟨main, h, fun _ _ g hg => hflat ⟨g, hg⟩⟩

theorem finds_main? (hlacks : y.machine.LoopsLack lacks) (window : Window) (granted : ResourceSet)
    (memory : List String) (budget : Nat) :
    y.Finds lacks (y.main? window granted memory budget)
      (Answers (y.MainFound memory budget window granted)) := by
  refine (finds_chosen? hlacks window granted memory budget).mono fun main? h => ?_
  refine ⟨fun main hmain => (h.sound main hmain).found, fun hnone main hmain => ?_⟩
  obtain ⟨chosen, hchosen⟩ := hmain.exists_chosen
  exact h.complete hnone chosen hchosen

theorem finds_attempt? {P : Nat → Code → Prop} {seek : Nat → SearchM (Option Code)}
    (hseek : ∀ budget, y.Finds lacks (seek budget) (Answers (P budget))) (budget attempt : Nat) :
    y.Finds lacks (attempt? seek budget attempt) (Answers (P (min (budget + attempt) maxBudget))) := by
  unfold attempt?
  split
  · exact (finds_record _).bind fun _ _ => hseek _
  · exact hseek _

/-- The attempt that finds a main part is one of those that are made. -/
theorem finds_attempts? {P : Nat → Code → Prop} {seek : Nat → SearchM (Option Code)}
    (hseek : ∀ budget, y.Finds lacks (seek budget) (Answers (P budget))) (budget n attempt : Nat) :
    y.Finds lacks (attempts? seek budget n attempt)
      (Answers fun main => ∃ k, attempt ≤ k ∧ k ≤ attempt + n ∧
        P (min (budget + k) maxBudget) main) := by
  induction n generalizing attempt with
  | zero =>
    refine (finds_attempt? hseek budget attempt).mono fun found h => h.congr fun main => ?_
    constructor
    · exact fun hmain => ⟨attempt, by omega, by omega, hmain⟩
    · rintro ⟨k, hle, hmax, hmain⟩
      obtain rfl : k = attempt := by omega
      exact hmain
  | succ n ih =>
    refine (finds_attempt? hseek budget attempt).bind fun found hfound => ?_
    cases found with
    | some main =>
      exact .of_pure (.of_some ⟨attempt, by omega, by omega, hfound.sound main rfl⟩)
    | none =>
      refine (ih (attempt + 1)).mono fun found h => h.congr fun main => ?_
      constructor
      · rintro ⟨k, hle, hmax, hmain⟩
        exact ⟨k, by omega, by omega, hmain⟩
      · rintro ⟨k, hle, hmax, hmain⟩
        refine ⟨k, Nat.lt_of_le_of_ne hle ?_, by omega, hmain⟩
        rintro rfl
        exact hfound.complete rfl main hmain

/-! ## The frame -/

theorem run_spill_eq_ok {f g : Frame} {outcome : SpillOutcome} {s t : Session}
    (h : (y.spill f).run s = .ok (.ok outcome, g) t) :
    (Frame.spill y.machine).run f = .ok outcome g := by
  unfold spill at h
  split at h
  · obtain ⟨_, _, _, h⟩ := run_bind_eq_ok.mp h
    obtain ⟨h, -⟩ := run_pure_eq_ok.mp h
    cases h
    assumption
  · obtain ⟨h, -⟩ := run_pure_eq_ok.mp h
    cases h

/-- At most `n` attempts lead from a frame to the one in which the main part is built. -/
theorem spills_of_freeRegisters? {window : Window} {n : Nat} {f g : Frame} {s t : Session}
    (h : (y.freeRegisters? test window n f).run s = .ok (some g) t) :
    ∃ freed, freed.length ≤ n ∧ f.Spills y.machine freed g := by
  induction n generalizing f s with
  | zero =>
    obtain ⟨⟨⟩, -⟩ := run_pure_eq_ok.mp h
    exact ⟨[], by simp, .refl⟩
  | succ n ih =>
    obtain ⟨asked, _, -, h⟩ := run_bind_eq_ok.mp h
    cases asked with
    | false =>
      obtain ⟨⟨⟩, -⟩ := run_pure_eq_ok.mp h
      exact ⟨[], by simp, .refl⟩
    | true =>
      obtain ⟨⟨result, f'⟩, _, hspill, h⟩ := run_bind_eq_ok.mp h
      obtain ⟨outcome, u, hresult, hrest⟩ := run_bind_eq_ok.mp h
      obtain ⟨rfl, hu⟩ := run_ofCatalog_eq_ok.mp hresult
      have hrun := run_spill_eq_ok hspill
      -- An attempt that freed a register is the first one of the row.
      have hfreed {r : Register} (hr : outcome.freed? = some r)
          (h : (y.freeRegisters? test window n f').run u = .ok (some g) t) :
          ∃ freed, freed.length ≤ n + 1 ∧ f.Spills y.machine freed g := by
        obtain ⟨freed, hlength, hspills⟩ := ih h
        exact ⟨r :: freed, by simpa using hlength, hspills.head hrun hr⟩
      cases outcome with
      | memory r => exact hfreed rfl hrest
      | stack r => exact hfreed rfl hrest
      | nothingToFree =>
        obtain ⟨⟨⟩, -⟩ := run_pure_eq_ok.mp hrest
        cases Frame.step_of_run hrun
        exact ⟨[], by simp, .refl⟩
      | infeasible =>
        obtain ⟨⟨⟩, -⟩ := run_pure_eq_ok.mp hrest

/-- Freeing registers from the frame `f` on has come to the frame `g`, where one more register is asked
for and there is no place to save it. -/
structure Stuck (y : Synthesizer) (test : SpillTest) (window : Window) (f g : Frame) : Prop where
  spills : ∃ freed, f.Spills y.machine freed g
  asked : test (window.minus (g.save.duration + g.restore.duration)).min
    (ResourceSet.ofResources g.resources) = .ok true
  infeasible : (Frame.spill y.machine).run g = .ok .infeasible g

theorem stuck_of_freeRegisters? {window : Window} {n : Nat} {f : Frame} {s t : Session}
    (h : (y.freeRegisters? test window n f).run s = .ok none t) : ∃ g, y.Stuck test window f g := by
  induction n generalizing f s with
  | zero =>
    obtain ⟨⟨⟩, -⟩ := run_pure_eq_ok.mp h
  | succ n ih =>
    obtain ⟨asked, _, hasked, h⟩ := run_bind_eq_ok.mp h
    obtain ⟨htest, -⟩ := run_ofCatalog_eq_ok.mp hasked
    cases asked with
    | false =>
      obtain ⟨⟨⟩, -⟩ := run_pure_eq_ok.mp h
    | true =>
      obtain ⟨⟨result, f'⟩, _, hspill, h⟩ := run_bind_eq_ok.mp h
      obtain ⟨outcome, u, hresult, hrest⟩ := run_bind_eq_ok.mp h
      obtain ⟨rfl, hu⟩ := run_ofCatalog_eq_ok.mp hresult
      have hrun := run_spill_eq_ok hspill
      have hlater {r : Register} (hr : outcome.freed? = some r)
          (h : (y.freeRegisters? test window n f').run u = .ok none t) :
          ∃ g, y.Stuck test window f g := by
        obtain ⟨g, ⟨freed, hspills⟩, hasked, hinfeasible⟩ := ih h
        exact ⟨g, ⟨r :: freed, hspills.head hrun hr⟩, hasked, hinfeasible⟩
      cases outcome with
      | memory r => exact hlater rfl hrest
      | stack r => exact hlater rfl hrest
      | nothingToFree =>
        obtain ⟨⟨⟩, -⟩ := run_pure_eq_ok.mp hrest
      | infeasible =>
        cases Frame.step_of_run hrun
        exact ⟨f, ⟨[], .refl⟩, htest, hrun⟩

theorem finds_spill (f : Frame) : y.Finds lacks (y.spill f) fun _ => True := by
  unfold spill
  split
  · exact (finds_record _).bind fun _ _ => .of_pure trivial
  · exact .of_pure trivial

theorem finds_freeRegisters? (window : Window) (n : Nat) (f : Frame) :
    y.Finds (fun _ => True) (y.freeRegisters? test window n f) fun _ => True := by
  induction n generalizing f with
  | zero => exact .of_pure trivial
  | succ n ih =>
    refine (finds_ofCatalog _ fun _ _ => trivial).bind fun asked _ => ?_
    cases asked with
    | false => exact .of_pure trivial
    | true =>
      refine (finds_spill f).bind fun ⟨result, f'⟩ _ => ?_
      refine (finds_ofCatalog result fun _ _ => trivial).bind fun outcome _ => ?_
      cases outcome with
      | memory r => exact ih f'
      | stack r => exact ih f'
      | nothingToFree => exact .of_pure trivial
      | infeasible => exact .of_pure trivial

/-! ## The routine -/

/-- What a routine is that is built for a request in a frame. -/
structure RoutineFound (y : Synthesizer) (test : SpillTest) (r : Request) (f : Frame)
    (routine : Routine Code) : Prop where
  included : routine.ret?.isSome = r.includeReturn
  returns : ∀ i ∈ routine.ret?, y.machine.ret = .ok i
  frame : ∃ s, (y.freeRegisters? test
    (r.window.minus ((routine.ret?.map Instruction.duration).getD 0)) (Register.count + 1)
    { resources := r.resources }).run {} = .ok (some f) s
  save : routine.save = f.save
  restore : routine.restore = f.restore
  main : ∃ attempt ≤ y.config.budgetRetries, y.MainFound (Resource.addresses f.resources)
    (min (r.budget - routine.ret?.toList.length - (f.save.length + f.restore.length) + attempt)
      maxBudget)
    ((r.window.minus ((routine.ret?.map Instruction.duration).getD 0)).minus
      (f.save.duration + f.restore.duration))
    (ResourceSet.ofResources f.resources) routine.main

theorem RoutineFound.spills {f : Frame} {routine : Routine Code}
    (h : y.RoutineFound test r f routine) : ∃ freed, freed.length ≤ Register.count + 1 ∧
      Frame.Spills y.machine { resources := r.resources } freed f := by
  obtain ⟨_, hrun⟩ := h.frame
  exact spills_of_freeRegisters? hrun

theorem run_returnFor?_eq_ok {ret? : Option Instruction} {s t : Session}
    (h : (y.returnFor? r).run s = .ok ret? t) :
    ret?.isSome = r.includeReturn ∧ (∀ i ∈ ret?, y.machine.ret = .ok i) ∧ s = t := by
  unfold returnFor? at h
  split at h
  · rename_i hincluded
    rw [map_eq_pure_bind] at h
    obtain ⟨i, _, hret, h⟩ := run_bind_eq_ok.mp h
    obtain ⟨hok, rfl⟩ := run_ofCatalog_eq_ok.mp hret
    obtain ⟨rfl, rfl⟩ := run_pure_eq_ok.mp h
    refine ⟨hincluded.symm, ?_, rfl⟩
    rintro _ ⟨⟩
    exact hok
  · rename_i hincluded
    obtain ⟨rfl, rfl⟩ := run_pure_eq_ok.mp h
    exact ⟨by simpa using hincluded, nofun, rfl⟩

theorem run_returnFor?_of_included {ret? : Option Instruction}
    (hincluded : ret?.isSome = r.includeReturn) (hreturns : ∀ i ∈ ret?, y.machine.ret = .ok i)
    (s : Session) : (y.returnFor? r).run s = .ok ret? s := by
  unfold returnFor?
  rw [← hincluded]
  cases ret? with
  | none => rfl
  | some i =>
    rw [hreturns i rfl]
    rfl

/-- The main parts that an attempt may find for a request in a frame. -/
abbrev MainFor (y : Synthesizer) (r : Request) (ret? : Option Instruction) (f : Frame)
    (attempt : Nat) : Code → Prop :=
  y.MainFound (Resource.addresses f.resources) (min (r.mainBudget ret? f + attempt) maxBudget)
    ((r.innerWindow ret?).minus (f.save.duration + f.restore.duration))
    (ResourceSet.ofResources f.resources)

/-- The search for the main part of a routine with a return and a frame. -/
def mainFor? (y : Synthesizer) (r : Request) (ret? : Option Instruction) (f : Frame) :
    SearchM (Option Code) :=
  attempts? (y.main? ((r.innerWindow ret?).minus (f.save.duration + f.restore.duration))
    (ResourceSet.ofResources f.resources) (Resource.addresses f.resources))
    (r.mainBudget ret? f) y.config.budgetRetries 0

theorem finds_mainFor? (hlacks : y.machine.LoopsLack lacks) (ret? : Option Instruction) (f : Frame) :
    y.Finds lacks (y.mainFor? r ret? f)
      (Answers fun main => ∃ attempt ≤ y.config.budgetRetries, y.MainFor r ret? f attempt main) := by
  refine (finds_attempts? (finds_main? hlacks _ _ _) _ _ _).mono fun found h => h.congr fun main => ?_
  simp only [Nat.zero_le, Nat.zero_add, true_and]

/-- A build finds the return, frees registers and seeks the main part. -/
theorem run_routine?_of_frame {ret? : Option Instruction} {f : Frame} {s : Session}
    (hret : (y.returnFor? r).run {} = .ok ret? {})
    (hframe : (y.freeRegisters? test (r.innerWindow ret?) (Register.count + 1)
      { resources := r.resources }).run {} = .ok (some f) s) :
    (y.routine? test r).run {} = (y.mainFor? r ret? f >>= fun main? =>
      pure (main?.map fun main => { save := f.save, main, restore := f.restore, ret? })).run s := by
  unfold routine? mainFor?
  unfold Request.innerWindow at hframe ⊢
  rw [run_bind_of_ok hret, run_bind_of_ok hframe]
  refine congrArg (fun k => EStateM.run (_ >>= k) s) (funext fun main? => ?_)
  cases main? <;> rfl

/-- What is to be known of a build that does not fail: it ends without a frame, or with what is found
in a frame. -/
theorem run_routine?_eq_ok {found : Option (Routine Code)} {s : Session}
    (h : (y.routine? test r).run {} = .ok found s) :
    ∃ ret?, ret?.isSome = r.includeReturn ∧ (∀ i ∈ ret?, y.machine.ret = .ok i) ∧
      ((found = none ∧ ∃ t, (y.freeRegisters? test (r.innerWindow ret?) (Register.count + 1)
          { resources := r.resources }).run {} = .ok none t) ∨
        ∃ f t, (y.freeRegisters? test (r.innerWindow ret?) (Register.count + 1)
            { resources := r.resources }).run {} = .ok (some f) t ∧
          ∃ main?, Answers (fun main => ∃ attempt ≤ y.config.budgetRetries,
              y.MainFor r ret? f attempt main) main? ∧
            found = main?.map fun main => { save := f.save, main, restore := f.restore, ret? }) := by
  have hroutine := h
  unfold routine? at h
  obtain ⟨ret?, _, hret, h⟩ := run_bind_eq_ok.mp h
  obtain ⟨hincluded, hreturns, rfl⟩ := run_returnFor?_eq_ok hret
  refine ⟨ret?, hincluded, hreturns, ?_⟩
  obtain ⟨f?, t, hframe, h⟩ := run_bind_eq_ok.mp h
  cases f? with
  | none =>
    obtain ⟨rfl, -⟩ := run_pure_eq_ok.mp h
    exact .inl ⟨rfl, t, hframe⟩
  | some f =>
    rw [run_routine?_of_frame hret hframe] at hroutine
    obtain ⟨main?, u, hmain, hroutine⟩ := run_bind_eq_ok.mp hroutine
    obtain ⟨rfl, -⟩ := run_pure_eq_ok.mp hroutine
    have hfaithful : t.Faithful y.machine.catalog :=
      ((finds_freeRegisters? _ _ _).of_ok Session.faithful_empty hframe).1
    have hlacks : y.machine.LoopsLack fun _ => True := fun _ _ _ _ => trivial
    have hanswers := ((finds_mainFor? hlacks _ _).of_ok hfaithful hmain).2
    exact .inr ⟨f, t, hframe, main?, hanswers, rfl⟩

theorem routineFound_of_run {routine : Routine Code} {s : Session}
    (h : (y.routine? test r).run {} = .ok (some routine) s) :
    ∃ f, y.RoutineFound test r f routine := by
  obtain ⟨ret?, hincluded, hreturns, ⟨⟨⟩, -⟩ | ⟨f, t, hframe, main?, hmain, hfound⟩⟩ :=
    run_routine?_eq_ok h
  obtain ⟨main, rfl, rfl⟩ := Option.map_eq_some_iff.mp hfound.symm
  exact ⟨f, hincluded, hreturns, ⟨t, hframe⟩, rfl, rfl, hmain.sound main rfl⟩

theorem finds_routine? : y.Finds (fun _ => True) (y.routine? test r) fun _ => True := by
  have hret : y.Finds (fun _ => True) (y.returnFor? r) fun _ => True := by
    unfold returnFor?
    split
    · exact (finds_ofCatalog _ fun _ _ => trivial).map fun _ _ => trivial
    · exact .of_pure trivial
  refine hret.bind fun ret? _ => (finds_freeRegisters? _ _ _).bind fun f? _ => ?_
  cases f? with
  | none => exact .of_pure trivial
  | some f =>
    refine (finds_attempts? (finds_main? (fun _ _ _ _ => trivial) _ _ _) _ _ _).bind fun main? _ => ?_
    cases main? with
    | none => exact .of_pure trivial
    | some main => exact .of_pure trivial

/-! ## The answer -/

theorem buildWith_of_searchLimit {s : Session} {limit : Nat} (hwindow : ¬(r.max < r.min ∨ r.max < 0))
    (hrun : (y.routine? test r).run {} = .error (.searchLimit limit) s) :
    y.buildWith test r = .ok (none, s.stats) := by
  unfold buildWith
  rw [if_neg hwindow, hrun]

/-- What the search ends with is the answer, if it passes the check of its duration. -/
theorem buildWith_of_ok {found : Option (Routine Code)} {s : Session}
    (hwindow : ¬(r.max < r.min ∨ r.max < 0)) (hrun : (y.routine? test r).run {} = .ok found s)
    (hcontains : ∀ routine ∈ found, r.window.Contains routine.duration) :
    y.buildWith test r = .ok (found, s.stats) := by
  unfold buildWith
  rw [if_neg hwindow, hrun]
  cases found with
  | none => rfl
  | some routine => exact if_pos (hcontains routine rfl)

theorem buildWith_of_none {s : Session} (hwindow : ¬(r.max < r.min ∨ r.max < 0))
    (hrun : (y.routine? test r).run {} = .ok none s) : y.buildWith test r = .ok (none, s.stats) :=
  buildWith_of_ok hwindow hrun nofun

theorem buildWith_of_some {s : Session} {routine : Routine Code}
    (hwindow : ¬(r.max < r.min ∨ r.max < 0))
    (hrun : (y.routine? test r).run {} = .ok (some routine) s)
    (hcontains : r.window.Contains routine.duration) :
    y.buildWith test r = .ok (some routine, s.stats) := by
  refine buildWith_of_ok hwindow hrun ?_
  rintro _ ⟨⟩
  exact hcontains

/-- An answer is what the search ended with, or the search was stopped by its limit of steps. -/
theorem run_of_buildWith {found : Option (Routine Code)} {stats : Stats}
    (h : y.buildWith test r = .ok (found, stats)) :
    ¬(r.max < r.min ∨ r.max < 0) ∧ ∃ s, s.stats = stats ∧
      (((y.routine? test r).run {} = .ok found s ∧
          ∀ routine ∈ found, r.window.Contains routine.duration) ∨
        (found = none ∧ y.config.stepLimit < stats.steps ∧
          ∃ limit, (y.routine? test r).run {} = .error (.searchLimit limit) s)) := by
  unfold buildWith at h
  split at h
  · cases h
  rename_i hwindow
  refine ⟨hwindow, ?_⟩
  split at h
  · rename_i limit s hrun
    cases h
    exact ⟨s, rfl, .inr ⟨rfl, (finds_routine?.of_error Session.faithful_empty hrun).2, limit, hrun⟩⟩
  · cases h
  · rename_i s hrun
    cases h
    exact ⟨s, rfl, .inl ⟨hrun, nofun⟩⟩
  · rename_i routine s hrun
    split at h
    · rename_i hcontains
      cases h
      refine ⟨s, rfl, .inl ⟨hrun, ?_⟩⟩
      rintro _ ⟨⟩
      exact hcontains
    · cases h

/-- Without a routine and within the limit of steps, the search has come to its end. -/
theorem run_of_buildWith_none {stats : Stats} (h : y.buildWith test r = .ok (none, stats))
    (hsteps : stats.steps ≤ y.config.stepLimit) :
    ∃ s, (y.routine? test r).run {} = .ok none s := by
  obtain ⟨-, s, -, ⟨hrun, -⟩ | ⟨-, hlimit, -⟩⟩ := run_of_buildWith h
  · exact ⟨s, hrun⟩
  · omega

/-- What a search ends with, if it finds something. -/
def found? {α : Type} (result : EStateM.Result SynthError Session (Option α)) : Option α :=
  match result with
  | .ok found _ => found
  | .error _ _ => none

theorem exists_of_any_found? {α : Type} {result : EStateM.Result SynthError Session (Option α)}
    {p : α → Bool} (h : (found? result).any p = true) :
    ∃ a s, result = .ok (some a) s ∧ p a = true := by
  unfold found? at h
  split at h
  · rename_i found s
    obtain ⟨a, rfl, ha⟩ := Option.any_eq_true _ _ |>.mp h
    exact ⟨a, s, rfl, ha⟩
  · cases h

theorem exists_of_isSome_found? {α : Type} {result : EStateM.Result SynthError Session (Option α)}
    (h : (found? result).isSome = true) : ∃ a s, result = .ok (some a) s := by
  obtain ⟨a, s, heq, -⟩ := exists_of_any_found? (p := fun _ => true) (by simpa using h)
  exact ⟨a, s, heq⟩

/-- The routine that building answers with. -/
def built? (answer : Except SynthError (Option (Routine Code) × Stats)) : Option (Routine Code) :=
  match answer with
  | .ok (found, _) => found
  | .error _ => none

theorem exists_of_isSome_built? {answer : Except SynthError (Option (Routine Code) × Stats)}
    (h : (built? answer).isSome = true) : ∃ routine stats, answer = .ok (some routine, stats) := by
  unfold built? at h
  split at h
  · rename_i found stats
    obtain ⟨routine, rfl⟩ := Option.isSome_iff_exists.mp h
    exact ⟨routine, stats, rfl⟩
  · cases h

theorem exists_of_any_built? {answer : Except SynthError (Option (Routine Code) × Stats)}
    {p : Routine Code → Bool} (h : (built? answer).any p = true) :
    ∃ routine stats, answer = .ok (some routine, stats) ∧ p routine = true := by
  cases hbuilt : built? answer with
  | none =>
    rw [hbuilt] at h
    cases h
  | some routine =>
    rw [hbuilt] at h
    obtain ⟨routine', stats, rfl⟩ := exists_of_isSome_built? (Option.isSome_of_eq_some hbuilt)
    obtain rfl : routine' = routine := Option.some.inj hbuilt
    exact ⟨routine', stats, rfl, h⟩

/-- The number of steps that an answer tells. -/
def stepsTaken? (answer : Except SynthError (Option (Routine Code) × Stats)) : Option Nat :=
  answer.toOption.map fun p => p.2.steps

/-- Tells whether building ends without a routine after at most `limit` steps. -/
def endsWithin (limit : Nat) (answer : Except SynthError (Option (Routine Code) × Stats)) : Bool :=
  match answer with
  | .ok (none, stats) => decide (stats.steps ≤ limit)
  | _ => false

theorem exists_of_endsWithin {answer : Except SynthError (Option (Routine Code) × Stats)}
    {limit : Nat} (h : endsWithin limit answer = true) :
    ∃ stats, answer = .ok (none, stats) ∧ stats.steps ≤ limit := by
  unfold endsWithin at h
  split at h
  · exact ⟨_, rfl, of_decide_eq_true h⟩
  · cases h

theorem routineFound_of_build {routine : Routine Code} {stats : Stats}
    (h : y.buildWith test r = .ok (some routine, stats)) :
    ∃ f, y.RoutineFound test r f routine := by
  obtain ⟨-, s, -, ⟨hrun, -⟩ | ⟨⟨⟩, -⟩⟩ := run_of_buildWith h
  exact routineFound_of_run hrun

end DelaySynth.Synthesizer
