import DelaySynth.Proofs.Build
import DelaySynth.Proofs.Code
import DelaySynth.Proofs.Target.I8085
import DelaySynth.Proofs.Window

/-!
# Routines last as long as they are asked to

What the return, the frame and the control instructions of the loops cost is taken off the window at
four places. `LoopFound.bounds` and `MainFound.bounds` put it back for the main part, whatever the
depth of its loops, and `RoutineFound.bounds` for the whole routine. So the last check of a build
never fails.

* `routine_within_request`: every routine that is assembled lasts between the two ends.
-/

namespace DelaySynth

/-! ## Frames -/

namespace Frame

variable {m : Machine} {f g : Frame} {bound : Nat}

/-- The cycles that are spent around the main part. -/
def duration (f : Frame) : Nat := f.save.duration + f.restore.duration

theorem duration_withPush_le (push : Instruction) :
    (f.withPush push).duration ≤ f.save.duration + push.duration := by
  unfold withPush
  split <;> simp

theorem duration_withPop_le (pop : Instruction) :
    (f.withPop pop).duration ≤ f.restore.duration + pop.duration := by
  unfold withPop
  split
  · simp
  · simp [Nat.add_comm]

/-- A step adds four instructions at most. -/
theorem Step.duration_le (hrows : ∀ row ∈ m.catalog.rows, row.duration < bound)
    {outcome : SpillOutcome} (h : Step m f outcome g) : g.duration ≤ f.duration + 4 * bound := by
  unfold duration
  cases h with
  | nothingToFree => omega
  | infeasible => omega
  | primary _ _ _ storeOk loadOk =>
    have hstore := Machine.duration_lt_of_instruction hrows storeOk
    have hload := Machine.duration_lt_of_instruction hrows loadOk
    simp only [Group.duration_append, Group.duration_prepend, Code.duration_instr]
    omega
  | copied _ _ _ outOk storeOk backOk loadOk =>
    have hout := Machine.duration_lt_of_instruction hrows outOk
    have hstore := Machine.duration_lt_of_instruction hrows storeOk
    have hback := Machine.duration_lt_of_instruction hrows backOk
    have hload := Machine.duration_lt_of_instruction hrows loadOk
    simp only [Group.duration_append, Group.duration_prepend, Code.duration_instr]
    omega
  | @stacked _ push pop _ _ _ pushOk popOk =>
    obtain ⟨_, -, hpushOk⟩ := Machine.instruction_of_mapM pushOk
    obtain ⟨_, -, hpopOk⟩ := Machine.instruction_of_mapM popOk
    have hpush := Machine.duration_lt_of_instruction hrows hpushOk
    have hpop := Machine.duration_lt_of_instruction hrows hpopOk
    have hsave := duration_withPush_le (f := f) push
    have hrestore := duration_withPop_le (f := f) pop
    show (f.withPush push).duration + (f.withPop pop).duration ≤ _
    omega

theorem Spills.duration_le (hrows : ∀ row ∈ m.catalog.rows, row.duration < bound)
    {freed : List Register} (h : Spills m f freed g) :
    g.duration ≤ f.duration + freed.length * (4 * bound) := by
  induction h with
  | refl => simp
  | tail before last success ih =>
    have hlast := (step_of_run last).duration_le hrows
    rw [List.length_append, List.length_singleton, Nat.add_mul]
    omega

end Frame

/-! ## Main parts -/

/-- What the loop spends besides its body counts as what it is, and not as a negative number. -/
structure Loop.SignedControl (l : Loop Code) : Prop where
  init : 2 * l.init.duration < bound64
  perIteration : 2 * (l.decrement.duration + l.branch.duration) < bound64

/-- What the loops of a main part spend besides their bodies counts as what it is. -/
inductive Code.SignedLoops : Code → Prop
  | group (g : Group Code) : SignedLoops (.group g)
  | loop {l : Loop Code} (control : l.SignedControl) (body : SignedLoops l.body) :
      SignedLoops (.loop l)

theorem Code.signedLoops_loop {l : Loop Code} :
    (Code.loop l).SignedLoops ↔ l.SignedControl ∧ l.body.SignedLoops := by
  constructor
  · rintro ⟨⟩
    exact ⟨‹_›, ‹_›⟩
  · rintro ⟨hl, hbody⟩
    exact .loop hl hbody

/-- What is taken off the window of a routine counts as what it is. -/
structure Routine.SignedParts (routine : Routine Code) : Prop where
  ret : 2 * (routine.ret?.map Instruction.duration).getD 0 < bound64
  frame : 2 * (routine.save.duration + routine.restore.duration) < bound64
  loops : routine.main.SignedLoops

namespace Synthesizer

variable {y : Synthesizer} {memory : List String} {budget depth : Nat} {window : Window}
  {granted : ResourceSet} {l : Loop Code}

/-- The control instructions of a loop cost what the overhead says. -/
theorem LoopShape.overhead_eq {c : Counter} {o : LoopOverhead}
    (h : y.LoopShape memory budget window granted depth c o l) :
    o = ⟨l.init.duration, l.decrement.duration + l.branch.duration⟩ := by
  obtain ⟨init, decrement, branch, hinit, hdecrement, hbranch, rfl⟩ :=
    Machine.overhead_eq_ok h.overhead
  obtain ⟨_, hinitOk⟩ := Machine.loopInit_eq_ok h.counted.init
  rw [Machine.duration_of_instruction hinitOk hinit,
    Machine.duration_of_instruction h.counted.decrement hdecrement,
    Machine.duration_of_instruction h.counted.branch hbranch]

/-- A body that fits the window for it makes the loop fit its own window. -/
theorem LoopShape.bounds {c : Counter} {o : LoopOverhead} (hl : l.SignedControl)
    (h : y.LoopShape memory budget window granted depth c o l)
    (hmin : (bodyWindow window o l.iterations).min ≤ l.body.duration)
    (hmax : l.body.duration ≤ (bodyWindow window o l.iterations).max) :
    window.min ≤ l.duration ∧ l.duration ≤ window.max := by
  obtain ⟨hinit, hcontrol⟩ := hl
  have hpos : 0 < l.iterations := by
    have := h.counted.two_le
    omega
  have hper : l.body.duration + (l.decrement.duration + l.branch.duration) = l.iterationDuration := by
    unfold Loop.iterationDuration
    omega
  rw [h.overhead_eq, bodyWindow] at hmin hmax
  rw [Window.le_body hpos hcontrol, Window.le_minus hinit] at hmin
  rw [Window.body_le hpos hcontrol, Window.minus_le hinit] at hmax
  simp only [hper, ← Loop.duration_eq] at hmin hmax
  exact ⟨hmin, hmax⟩

theorem LoopShape.signedControl {c : Counter} {o : LoopOverhead}
    (hrows : ∀ row ∈ y.machine.catalog.rows, row.duration < bound32)
    (h : y.LoopShape memory budget window granted depth c o l) : l.SignedControl := by
  obtain ⟨_, hinitOk⟩ := Machine.loopInit_eq_ok h.counted.init
  have hinit := Machine.duration_lt_of_instruction hrows hinitOk
  have hdecrement := Machine.duration_lt_of_instruction hrows h.counted.decrement
  have hbranch := Machine.duration_lt_of_instruction hrows h.counted.branch
  have hword := bound32_lt_bound64
  constructor <;> omega

theorem LoopFound.bounds_of_signedLoops (hloops : (Code.loop l).SignedLoops)
    (h : y.LoopFound memory budget window granted depth l) :
    window.min ≤ l.duration ∧ l.duration ≤ window.max := by
  induction h with
  | flat shape body _ found =>
    obtain ⟨hl, -⟩ := Code.signedLoops_loop.mp hloops
    obtain ⟨_, -, -, hmin, hmax⟩ := Reach.lookupWindow_ofFillers found
    exact shape.bounds hl (by simpa [body] using hmin) (by simpa [body] using hmax)
  | nested shape body _ _ ih =>
    obtain ⟨hl, hbody⟩ := Code.signedLoops_loop.mp hloops
    have hinner := ih (body ▸ hbody)
    exact shape.bounds hl (by simpa [body] using hinner.1) (by simpa [body] using hinner.2)

theorem LoopFound.signedLoops (hrows : ∀ row ∈ y.machine.catalog.rows, row.duration < bound32)
    (h : y.LoopFound memory budget window granted depth l) : (Code.loop l).SignedLoops := by
  induction h with
  | flat shape body _ _ =>
    exact .loop (shape.signedControl hrows) (body ▸ .group _)
  | nested shape body _ _ ih => exact .loop (shape.signedControl hrows) (body ▸ ih)

theorem LoopFound.bounds (hrows : ∀ row ∈ y.machine.catalog.rows, row.duration < bound32)
    (h : y.LoopFound memory budget window granted depth l) :
    window.min ≤ l.duration ∧ l.duration ≤ window.max :=
  h.bounds_of_signedLoops (h.signedLoops hrows)

theorem MainFound.bounds {main : Code} (hloops : main.SignedLoops)
    (h : y.MainFound memory budget window granted main) :
    window.min ≤ main.duration ∧ main.duration ≤ window.max := by
  cases h with
  | flat _ _ found =>
    obtain ⟨_, -, -, hmin, hmax⟩ := Reach.lookupWindow_ofFillers found
    exact ⟨by simpa using hmin, by simpa using hmax⟩
  | loop _ found => simpa using found.bounds_of_signedLoops hloops

theorem MainFound.signedLoops (hrows : ∀ row ∈ y.machine.catalog.rows, row.duration < bound32)
    {main : Code} (h : y.MainFound memory budget window granted main) : main.SignedLoops := by
  cases h with
  | flat => exact .group _
  | loop _ found => exact found.signedLoops hrows

/-! ## Routines -/

variable {test : SpillTest} {r : Request} {f : Frame} {routine : Routine Code}

theorem RoutineFound.duration_eq (h : y.RoutineFound test r f routine) :
    routine.duration = (routine.ret?.map Instruction.duration).getD 0 +
      (f.save.duration + f.restore.duration + routine.main.duration) := by
  rw [Routine.duration_eq, h.save, h.restore]
  omega

theorem RoutineFound.duration_frame_lt
    (hrows : ∀ row ∈ y.machine.catalog.rows, row.duration < bound32)
    (h : y.RoutineFound test r f routine) : 2 * f.duration < bound64 := by
  obtain ⟨freed, hlength, hspills⟩ := h.spills
  have hle := hspills.duration_le hrows
  have hzero : Frame.duration { resources := r.resources } = 0 := by
    simp [Frame.duration, Group.duration_eq]
  have hmul : freed.length * (4 * bound32) ≤ (Register.count + 1) * (4 * bound32) :=
    Nat.mul_le_mul_right _ hlength
  have hword := bound32_lt_bound64
  simp only [Register.count] at hmul
  omega

theorem RoutineFound.duration_ret_lt
    (hrows : ∀ row ∈ y.machine.catalog.rows, row.duration < bound32)
    (h : y.RoutineFound test r f routine) :
    2 * (routine.ret?.map Instruction.duration).getD 0 < bound64 := by
  cases hret : routine.ret? with
  | none => decide
  | some i =>
    have hword := bound32_lt_bound64
    have hi := Machine.duration_lt_of_instruction hrows (h.returns i hret)
    simp only [Option.map_some, Option.getD_some]
    omega

theorem RoutineFound.bounds_of_signedParts (hparts : routine.SignedParts)
    (h : y.RoutineFound test r f routine) :
    r.min ≤ routine.duration ∧ routine.duration ≤ r.max := by
  obtain ⟨hret, hframe, hloops⟩ := hparts
  obtain ⟨_, -, hmain⟩ := h.main
  obtain ⟨hmin, hmax⟩ := hmain.bounds hloops
  rw [h.save, h.restore] at hframe
  rw [Window.le_minus hframe, Window.le_minus hret] at hmin
  rw [Window.minus_le hframe, Window.minus_le hret] at hmax
  rw [h.duration_eq]
  exact ⟨hmin, hmax⟩

theorem RoutineFound.signedParts (hrows : ∀ row ∈ y.machine.catalog.rows, row.duration < bound32)
    (h : y.RoutineFound test r f routine) : routine.SignedParts := by
  obtain ⟨_, -, hmain⟩ := h.main
  refine ⟨h.duration_ret_lt hrows, ?_, hmain.signedLoops hrows⟩
  rw [h.save, h.restore]
  exact h.duration_frame_lt hrows

theorem RoutineFound.bounds (hrows : ∀ row ∈ y.machine.catalog.rows, row.duration < bound32)
    (h : y.RoutineFound test r f routine) :
    r.min ≤ routine.duration ∧ routine.duration ≤ r.max :=
  h.bounds_of_signedParts (h.signedParts hrows)

/-! ## Rows of any duration -/

/-- A body that fits the window for it up to the size of a word makes the loop do so as well. -/
theorem LoopShape.admits {c : Counter} {o : LoopOverhead}
    (h : y.LoopShape memory budget window granted depth c o l)
    (hbody : (bodyWindow window o l.iterations).Admits l.body.duration) :
    window.Admits l.duration := by
  have hpos : 0 < l.iterations := Nat.lt_of_lt_of_le Nat.two_pos h.counted.two_le
  have hduration : l.duration = o.init + l.iterations * (l.body.duration + o.perIteration) := by
    rw [h.overhead_eq, Loop.duration_eq, Loop.iterationDuration]
    simp only [Nat.add_assoc]
  rw [hduration]
  exact (hbody.of_body hpos).of_minus

theorem LoopFound.admits (h : y.LoopFound memory budget window granted depth l) :
    window.Admits l.duration := by
  induction h with
  | flat shape body _ found =>
    obtain ⟨_, -, -, hmin, hmax⟩ := Reach.lookupWindow_ofFillers found
    exact shape.admits (by rw [body]; exact Window.admits_of_le (by simpa using hmin) (by simpa using hmax))
  | nested shape body _ _ ih => exact shape.admits (by simpa [body] using ih)

theorem MainFound.admits {main : Code} (h : y.MainFound memory budget window granted main) :
    window.Admits main.duration := by
  cases h with
  | flat _ _ found =>
    obtain ⟨_, -, -, hmin, hmax⟩ := Reach.lookupWindow_ofFillers found
    exact Window.admits_of_le (by simpa using hmin) (by simpa using hmax)
  | loop _ found => simpa using found.admits

/-- Whatever the rows last, a routine that is assembled passes the check of its duration. -/
theorem RoutineFound.contains (hmin : -(bound64 : Int) ≤ 2 * r.min) (hmax : 2 * r.max < bound64)
    (h : y.RoutineFound test r f routine) : r.window.Contains routine.duration := by
  obtain ⟨_, -, hmain⟩ := h.main
  rw [h.duration_eq]
  exact Window.contains_of_admits hmin hmax hmain.admits.of_minus.of_minus

/-! ## The request -/

/-- Every routine that is assembled lasts between the ends of the request, before that is checked,
and the check never fails. -/
theorem routine_within_request (y : Synthesizer) (test : SpillTest) (r : Request)
    (hrows : ∀ row ∈ y.machine.catalog.rows, row.duration < bound32)
    (hmax : 2 * r.max < bound64) :
    (∀ routine s, (y.routine? test r).run {} = .ok (some routine) s →
      r.min ≤ routine.duration ∧ routine.duration ≤ r.max) ∧
    ∀ duration min max, y.buildWith test r ≠ .error (.timingMismatch duration min max) := by
  have hbounds (routine : Routine Code) (s : Session)
      (hrun : (y.routine? test r).run {} = .ok (some routine) s) :
      r.min ≤ routine.duration ∧ routine.duration ≤ r.max := by
    obtain ⟨f, hfound⟩ := routineFound_of_run hrun
    exact hfound.bounds hrows
  refine ⟨hbounds, fun duration min max h => ?_⟩
  unfold buildWith at h
  split at h
  · cases h
  split at h
  · cases h
  · rename_i e s _ hrun
    obtain rfl := Except.error.inj h
    exact (finds_routine?.of_error Session.faithful_empty hrun).2
  · cases h
  · rename_i routine s hrun
    have hwithin := hbounds routine s hrun
    rw [if_pos ((Window.contains_iff (by omega)).mpr hwithin)] at h
    cases h

set_option maxRecDepth 100000 in
theorem routine_within_request_hundred : ∃ routine s,
    (I8085.synthesizer.routine? (fun _ _ => .ok false)
      { min := 100, max := 103, resources := [.register "B"], budget := 8 }).run {} =
      .ok (some routine) s ∧ 100 ≤ (routine.duration : Int) ∧ (routine.duration : Int) ≤ 103 := by
  have hfound : (found? <| (I8085.synthesizer.routine? (fun _ _ => .ok false)
      { min := 100, max := 103, resources := [.register "B"], budget := 8 }).run {}).isSome =
      true := by
    decide +kernel
  obtain ⟨routine, s, hrun⟩ := exists_of_isSome_found? hfound
  exact ⟨routine, s, hrun,
    (routine_within_request _ _ _ I8085.duration_lt (by decide)).1 routine s hrun⟩

end Synthesizer

end DelaySynth
