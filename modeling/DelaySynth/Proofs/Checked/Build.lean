import DelaySynth.Proofs.Checked.Frames
import DelaySynth.Proofs.Checked.Search

/-!
# Builds within words

Building a routine, with a check of every result of its arithmetic. The return is taken off both ends
of the window before anything else is known about them, and that is the only place where a result can
be out of range: a lower end that is fewer cycles above the lowest word than the return lasts.

* `Checked.buildWith_eq`: a build whose window has room for the return is in range.
* `Checked.buildWith_eq_none`: any other is not.
-/

namespace DelaySynth.Checked

open SearchM Reach

/-! ## The main part -/

/-- Seeks the main part: the shortest flat sequence in the window, or else a loop. -/
def main? (y : Synthesizer) (window : Window) (granted : ResourceSet) (memory : List String)
    (budget : Nat) : CheckedM (Option Code) := do
  if window.max < 0 then return none
  let table ← obtain y.keepTables y.config.stepLimit y.machine.catalog { budget, granted, memory }
  let top ← demand (signed table.top)
  let flat? ← demand (if window.min ≤ top then lookupWindow table window else some none)
  match flat? with
  | some flat => return some (.group flat)
  | none => return (← loop? y memory budget window granted 0).map .loop

/-- Seeks the main part with `attempt` more instructions than the budget. -/
def attempt? (seek : Nat → CheckedM (Option Code)) (budget attempt : Nat) :
    CheckedM (Option Code) := do
  if 0 < attempt then recordRetry
  seek (min (budget + attempt) Synthesizer.maxBudget)

/-- Seeks the main part with `attempt` more instructions than the budget, and then with one more at a
time, `n` times at most. -/
def attempts? (seek : Nat → CheckedM (Option Code)) (budget : Nat) :
    (n attempt : Nat) → CheckedM (Option Code)
  | 0, attempt => attempt? seek budget attempt
  | n + 1, attempt => do
    match ← attempt? seek budget attempt with
    | some main => return some main
    | none => attempts? seek budget n (attempt + 1)

/-! ## The routine -/

/-- Seeks a routine, freeing registers as long as `test` asks for it. -/
def routine? (y : Synthesizer) (test : SpillTest) (r : Request) :
    CheckedM (Option (Routine Code)) := do
  let ret? ← (liftM (y.returnFor? r) : CheckedM (Option Instruction))
  let window ← demand (minus r.window ((ret?.map Instruction.duration).getD 0))
  let some f ← freeRegisters? y test window (Register.count + 1) { resources := r.resources }
    | return none
  let window ← demand (minus window (← demand (frameDuration f)))
  let around ← demand (short (f.save.length + f.restore.length : Nat))
  let budget := r.budget - ret?.toList.length - around
  let seek := main? y window (ResourceSet.ofResources f.resources) (Resource.addresses f.resources)
  let some main ← attempts? seek budget y.config.budgetRetries 0 | return none
  return some { save := f.save, main, restore := f.restore, ret? }

/-- Builds a routine, freeing registers as long as `test` asks for it. There is no answer if something
is out of range. -/
def buildWith (y : Synthesizer) (test : SpillTest) (r : Request) :
    Option (Except SynthError (Option (Routine Code) × Stats)) :=
  if r.max < r.min ∨ r.max < 0 then some (.error (.invalidWindow r.min r.max))
  else
    match (routine? y test r).run.run {} with
    | .error (.searchLimit _) s => some (.ok (none, s.stats))
    | .error e _ => some (.error e)
    | .ok none _ => none
    | .ok (some none) s => some (.ok (none, s.stats))
    | .ok (some (some routine)) s => do
      let duration ← routineDuration routine
      if r.window.Contains duration then return .ok (some routine, s.stats)
      else return .error (.timingMismatch duration r.min r.max)

/-- Builds a routine for a request. -/
def build (y : Synthesizer) (r : Request) :
    Option (Except SynthError (Option (Routine Code) × Stats)) :=
  buildWith y y.spillTest r

variable {y : Synthesizer} {test : SpillTest} {r : Request}

theorem reaches_zero (fillers : List Instruction) (budget : Nat) :
    (ofFillers fillers budget).reaches 0 = true :=
  reaches_ofFillers.mpr ⟨room_pos _ _, within_nil⟩

theorem inRange_main? (hrows : ∀ row ∈ y.machine.catalog.rows, row.duration < bound32)
    (hlimit : 2 * y.config.stepLimit < bound64) {w : Window} (hw : Signed w) (granted : ResourceSet)
    (memory : List String) {budget : Nat} (hbudget : budget < bound32) :
    StaysInRange y (y.main? w granted memory budget) (main? y w granted memory budget) := by
  unfold Synthesizer.main? main?
  split
  · exact .of_pure trivial
  rename_i hmax
  refine (inRange_obtain hlimit _ _).bind fun table hobtained => ?_
  obtain ⟨htable, htop⟩ := hobtained
  have hflat : (if w.min ≤ table.top then lookupWindow table w else some none) =
      some (if w.min ≤ table.top then table.lookupWindow w else none) := by
    split
    · subst htable
      exact lookupWindow_eq htop
    · rfl
  refine InRange.demand_bind (signed_eq (i := table.top) (by omega) (by omega)) ?_
  refine InRange.demand_bind hflat ?_
  simp only
  cases hfound : (if w.min ≤ table.top then table.lookupWindow w else none) with
  | some flat => exact .of_pure trivial
  | none =>
    -- Otherwise the window holds the empty sequence.
    have hpos : 0 < w.min := by
      by_contra hneg
      obtain ⟨g, hg⟩ := lookupWindow_of_reaches (w := w)
        (reaches_zero (y.machine.catalog.fillers granted memory) budget) (by omega) (by omega)
      have hlookup : table.lookupWindow w = some g := by
        rw [htable]
        exact hg
      rw [if_pos (by omega), hlookup] at hfound
      cases hfound
    have hloop := inRange_loop? hrows hlimit memory ⟨hw, hpos⟩ granted
      (show 0 + budget < bound32 by omega)
    exact hloop.bind fun _ _ => .of_pure trivial

theorem inRange_attempts? {seek : Nat → SearchM (Option Code)}
    {seek' : Nat → CheckedM (Option Code)}
    (hseek : ∀ budget < bound32, StaysInRange y (seek budget) (seek' budget))
    (budget n attempt : Nat) :
    StaysInRange y (Synthesizer.attempts? seek budget n attempt)
      (attempts? seek' budget n attempt) := by
  have hattempt (attempt : Nat) : StaysInRange y (Synthesizer.attempt? seek budget attempt)
      (attempt? seek' budget attempt) := by
    have hlt : min (budget + attempt) Synthesizer.maxBudget < bound32 := by
      have : Synthesizer.maxBudget < bound32 := by decide
      omega
    unfold Synthesizer.attempt? attempt?
    split
    · exact (InRange.of_lift (ensures_record _)).bind fun _ _ => hseek _ hlt
    · exact hseek _ hlt
  induction n generalizing attempt with
  | zero => exact hattempt attempt
  | succ n ih =>
    refine (hattempt attempt).bind fun found _ => ?_
    cases found with
    | some main => exact .of_pure trivial
    | none => exact ih (attempt + 1)

/-! ## Durations of what is found -/

theorem groupDuration_of_lookupWindow {c : Catalog} {key : TableKey} {w : Window} {g : Group Code}
    (hfound : (ofKey c key).lookupWindow w = some g) (h : g.duration < bound64) :
    groupDuration g = some g.duration := by
  obtain ⟨items, rfl, -⟩ := lookupWindow_ofFillers hfound
  refine groupDuration_eq (fun code hcode => ?_) h
  obtain ⟨i, -, rfl⟩ := List.mem_map.mp hcode
  exact ⟨i, rfl⟩

theorem loopDuration_of_found {memory : List String} {budget depth : Nat} {w : Window}
    {granted : ResourceSet} {l : Loop Code} (hl : y.LoopFound memory budget w granted depth l)
    (h : l.duration < bound64) : loopDuration l = some l.duration := by
  induction hl with
  | flat shape body _ found =>
    have hpos := Nat.lt_of_lt_of_le Nat.two_pos shape.counted.two_le
    refine loopDuration_eq hpos (fun hbody => ?_) h
    rw [body, Code.duration_group] at hbody ⊢
    rw [duration]
    exact groupDuration_of_lookupWindow found hbody
  | nested shape body _ _ ih =>
    have hpos := Nat.lt_of_lt_of_le Nat.two_pos shape.counted.two_le
    refine loopDuration_eq hpos (fun hbody => ?_) h
    rw [body, Code.duration_loop] at hbody ⊢
    rw [duration]
    exact ih hbody

theorem duration_of_mainFound {memory : List String} {budget : Nat} {w : Window}
    {granted : ResourceSet} {main : Code} (hmain : y.MainFound memory budget w granted main)
    (h : main.duration < bound64) : duration main = some main.duration := by
  cases hmain with
  | flat _ _ found =>
    rw [Code.duration_group] at h ⊢
    rw [duration]
    exact groupDuration_of_lookupWindow found h
  | loop _ found =>
    rw [Code.duration_loop] at h ⊢
    rw [duration]
    exact loopDuration_of_found found h

theorem routineDuration_of_found (hrows : ∀ row ∈ y.machine.catalog.rows, row.duration < bound32)
    (hmax : 2 * r.max < bound64) {f : Frame} {routine : Routine Code}
    (h : y.RoutineFound test r f routine) : routineDuration routine = some routine.duration := by
  obtain ⟨freed, -, hspills⟩ := h.spills
  obtain ⟨hsave, hrestore⟩ := (hspills.named ⟨nofun, nofun⟩).instr
  obtain ⟨_, -, hmain⟩ := h.main
  have hbounds := (h.bounds hrows).2
  refine routineDuration_eq (h.save ▸ hsave) (duration_of_mainFound hmain) (h.restore ▸ hrestore) ?_
  omega

/-! ## Builds -/

/-- The cycles of the return that a request asks for, if the catalog lists it. -/
def returnCycles (m : Machine) (r : Request) : Nat :=
  if r.includeReturn then (m.ret.toOption.map Instruction.duration).getD 0 else 0

theorem ensures_returnFor? {c : Catalog} {limit : Nat} :
    Ensures (Session.Sized c limit) (fun _ _ => True) (y.returnFor? r) fun ret? =>
      (ret?.map Instruction.duration).getD 0 = returnCycles y.machine r := by
  unfold Synthesizer.returnFor? returnCycles
  split
  · refine (ensures_ofCatalog _).map fun i hi => ?_
    rw [hi]
    rfl
  · exact .of_pure rfl

theorem returnCycles_lt (hrows : ∀ row ∈ y.machine.catalog.rows, row.duration < bound32) :
    returnCycles y.machine r < bound32 := by
  have hzero : 0 < bound32 := by decide
  unfold returnCycles
  split
  · cases hret : y.machine.ret with
    | ok i => exact Machine.duration_lt_of_instruction hrows hret
    | error e => exact hzero
  · exact hzero

theorem inRange_routine? (hrows : ∀ row ∈ y.machine.catalog.rows, row.duration < bound32)
    (hlimit : 2 * y.config.stepLimit < bound64) (htest : Restrained test)
    (hwindow : r.min ≤ r.max) (hmax : 2 * r.max < bound64)
    (hmin : -(bound64 : Int) ≤ 2 * (r.min - returnCycles y.machine r)) :
    StaysInRange y (y.routine? test r) (routine? y test r) := by
  unfold Synthesizer.routine? routine?
  refine (InRange.of_lift ensures_returnFor?).bind fun ret? hret => ?_
  have hword := bound32_lt_bound64
  have hcycles : returnCycles y.machine r < bound32 := returnCycles_lt hrows
  have hwindow : Signed r.window := ⟨by simp only [Request.window]; omega, hwindow, hmax⟩
  obtain ⟨hchecked, hw⟩ := hwindow.minus (show 2 * returnCycles y.machine r < bound64 by omega) hmin
  rw [hret]
  refine InRange.demand_bind hchecked ?_
  refine (inRange_freeRegisters? hrows htest hw _ (Light.empty _) (Nat.zero_add _)).bind
    fun f? hf => ?_
  cases f? with
  | none => exact .of_pure trivial
  | some f =>
    have hf := hf f rfl
    obtain ⟨hmain, hleft⟩ := hf.minus_eq (Nat.le_refl _) hw
    refine InRange.demand_bind (hf.frameDuration_eq (Nat.le_refl _)) ?_
    refine InRange.demand_bind hmain ?_
    refine InRange.demand_bind (short_eq (hf.length_lt (Nat.le_refl _))) ?_
    have hseek (budget : Nat) (hbudget : budget < bound32) :=
      inRange_main? hrows hlimit hleft (ResourceSet.ofResources f.resources)
        (Resource.addresses f.resources) hbudget
    refine (inRange_attempts? hseek _ _ _).bind fun main? _ => ?_
    cases main? with
    | none => exact .of_pure trivial
    | some main => exact .of_pure trivial

/-- If the return can be taken off the window, then nothing is out of range in the whole build, and it
answers what the build without the checks does. -/
theorem buildWith_eq (hrows : ∀ row ∈ y.machine.catalog.rows, row.duration < bound32)
    (hlimit : 2 * y.config.stepLimit < bound64) (htest : Restrained test)
    (hmax : 2 * r.max < bound64)
    (hmin : -(bound64 : Int) ≤ 2 * (r.min - returnCycles y.machine r)) :
    buildWith y test r = some (y.buildWith test r) := by
  unfold buildWith Synthesizer.buildWith
  split
  · rfl
  rename_i hwindow
  have hinRange := inRange_routine? hrows hlimit htest (by omega) hmax hmin
  rw [hinRange.run_eq (s := {}) nofun, EStateM.run_bind]
  cases hrun : (y.routine? test r).run {} with
  | error e s => cases e <;> rfl
  | ok found s =>
    cases found with
    | none => rfl
    | some routine =>
      obtain ⟨f, hfound⟩ := Synthesizer.routineFound_of_run hrun
      simp only [EStateM.run_pure]
      rw [routineDuration_of_found hrows hmax hfound, Option.bind_eq_bind, Option.bind_some]
      split
      · rfl
      · rfl

/-- If the return cannot be taken off the window, then the build is out of range at once. -/
theorem buildWith_eq_none {i : Instruction} (hret : y.machine.ret = .ok i)
    (hincluded : r.includeReturn = true) (hcycles : 2 * i.duration < bound64)
    (hwindow : ¬(r.max < r.min ∨ r.max < 0)) (hmin : 2 * (r.min - i.duration) < -(bound64 : Int)) :
    buildWith y test r = none := by
  have hreturn : (y.returnFor? r).run {} = .ok (some i) {} := by
    unfold Synthesizer.returnFor?
    rw [if_pos hincluded, hret]
    rfl
  have hminus : minus r.window i.duration = none :=
    minus_eq_none (w := ⟨r.min, r.max⟩) hcycles hmin
  have hrun : (routine? y test r).run.run {} = .ok none {} := by
    unfold routine?
    have hlift : (liftM (y.returnFor? r) : CheckedM (Option Instruction)).run =
        y.returnFor? r >>= fun ret? => pure (some ret?) := rfl
    rw [OptionT.run_bind, hlift, Option.elimM, bind_assoc, run_bind_of_ok hreturn, pure_bind]
    rw [Option.elim_some, Option.map_some, Option.getD_some, hminus, run_demand_none_bind,
      EStateM.run_pure]
  unfold buildWith
  rw [if_neg hwindow, hrun]

end DelaySynth.Checked
