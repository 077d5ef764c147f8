import DelaySynth.Proofs.Checked.Sessions
import DelaySynth.Proofs.Timing

/-!
# Frames within words

Freeing registers, with a check of the cycles around the main part and of what they leave of the window.
As long as no register is asked for where the window does not begin above zero, the frame is empty or
the window begins so far up that the frame can be taken off it.

* `Frame.Step.size_le`: an attempt to free a register adds four instructions at most.
* `Checked.inRange_freeRegisters?`: nothing is out of range until the frame is found.
-/

namespace DelaySynth

/-! ## The size of a frame -/

namespace Frame

variable {m : Machine} {f g : Frame}

/-- The number of pieces around the main part. -/
def size (f : Frame) : Nat := f.save.items.length + f.restore.items.length

theorem size_withPush_le (push : Instruction) :
    (f.withPush push).items.length ≤ f.save.items.length + 1 := by
  unfold withPush
  split
  · omega
  · simp [Group.append]

theorem size_withPop_le (pop : Instruction) :
    (f.withPop pop).items.length ≤ f.restore.items.length + 1 := by
  unfold withPop
  split
  · omega
  · simp [Group.prepend]

theorem Step.size_le {outcome : SpillOutcome} (h : Step m f outcome g) : g.size ≤ f.size + 4 := by
  unfold size
  cases h with
  | nothingToFree => omega
  | infeasible => omega
  | primary => simp only [Group.append, Group.prepend, List.length_append, List.length_cons,
      List.length_nil]; omega
  | copied => simp only [Group.append, Group.prepend, List.length_append, List.length_cons,
      List.length_nil]; omega
  | @stacked _ push pop =>
    have hsave := size_withPush_le (f := f) push
    have hrestore := size_withPop_le (f := f) pop
    show (f.withPush push).items.length + (f.withPop pop).items.length ≤ _
    omega

theorem Named.instr (h : f.Named m) : (∀ c ∈ f.save.items, ∃ i, c = .instr i) ∧
    ∀ c ∈ f.restore.items, ∃ i, c = .instr i := by
  obtain ⟨hsave, hrestore⟩ := h
  constructor
  · intro c hc
    obtain ⟨i, _, _, hi, -⟩ := hsave c hc
    exact ⟨i, hi⟩
  · intro c hc
    obtain ⟨i, _, _, hi, -⟩ := hrestore c hc
    exact ⟨i, hi⟩

end Frame

/-- Single instructions count one each. -/
theorem Code.totalLength_of_instr {cs : List Code} (hcs : ∀ c ∈ cs, ∃ i, c = .instr i) :
    totalLength cs = cs.length := by
  induction cs with
  | nil => rw [totalLength]; rfl
  | cons c cs ih =>
    obtain ⟨⟨i, rfl⟩, hrest⟩ := List.forall_mem_cons.mp hcs
    rw [totalLength, ih hrest, Code.length, List.length_cons, Nat.add_comm]

theorem Group.length_of_instr {g : Group Code} (hg : ∀ c ∈ g.items, ∃ i, c = .instr i) :
    g.length = g.items.length := by
  cases g
  rw [Group.length, Code.totalLength_of_instr hg]

namespace Checked

open SearchM

/-- The number of cycles around the main part. -/
def frameDuration (f : Frame) : Option Nat := do
  word ((← groupDuration f.save) + (← groupDuration f.restore))

/-- Frees registers as long as `test` asks for it, at most `n` times. -/
def freeRegisters? (y : Synthesizer) (test : SpillTest) (window : Window) :
    (n : Nat) → Frame → CheckedM (Option Frame)
  | 0, f => return some f
  | n + 1, f => do
    let left ← demand (minus window (← demand (frameDuration f)))
    if ← (ofCatalog (test left.min (ResourceSet.ofResources f.resources)) : SearchM Bool) then
      let (outcome, f) ← y.spill f
      match ← (ofCatalog outcome : SearchM SpillOutcome) with
      | .memory _ | .stack _ => freeRegisters? y test window n f
      | .nothingToFree => return some f
      | .infeasible => return none
    else return some f

/-- The test asks for no register where a window does not begin above zero. -/
def Restrained (test : SpillTest) : Prop :=
  ∀ (windowMin : Int) (granted : ResourceSet), -(bound64 : Int) ≤ 2 * windowMin → windowMin ≤ 0 →
    test windowMin granted ≠ .ok true

/-- What stands around the main part after some attempts to free a register. It is taken off windows
that begin above zero only. -/
structure Light (m : Machine) (w : Window) (attempts : Nat) (f : Frame) : Prop where
  named : f.Named m
  size : f.size ≤ attempts * 4
  duration : f.duration ≤ attempts * (4 * bound32)
  free : f.duration = 0 ∨ 0 < w.min

variable {y : Synthesizer} {m : Machine} {w : Window} {f g : Frame} {attempts : Nat}

theorem Light.empty (rs : List Resource) : Light m w 0 { resources := rs } where
  named := ⟨nofun, nofun⟩
  size := Nat.le_refl 0
  duration := by simp [Frame.duration, Group.duration_eq]
  free := .inl (by simp [Frame.duration, Group.duration_eq])

theorem Light.step (hrows : ∀ row ∈ m.catalog.rows, row.duration < bound32)
    (h : Light m w attempts f) (hpos : 0 < w.min) {outcome : SpillOutcome}
    (hstep : f.Step m outcome g) : Light m w (attempts + 1) g where
  named := hstep.named h.named
  size := by
    have hgrown := hstep.size_le
    have hf := h.size
    omega
  duration := by
    have hgrown := hstep.duration_le hrows
    have hf := h.duration
    rw [Nat.succ_mul]
    omega
  free := .inr hpos

theorem Light.mono (h : Light m w attempts f) {n : Nat} (hle : attempts ≤ n) : Light m w n f where
  named := h.named
  size := Nat.le_trans h.size (Nat.mul_le_mul_right _ hle)
  duration := Nat.le_trans h.duration (Nat.mul_le_mul_right _ hle)
  free := h.free

theorem Light.duration_lt (h : Light m w attempts f) (hattempts : attempts ≤ Register.count + 1) :
    4 * f.duration < bound64 := by
  have hle := (h.mono hattempts).duration
  have hword := bound32_lt_bound64
  simp only [Register.count] at hle
  omega

theorem Light.frameDuration_eq (h : Light m w attempts f) (hattempts : attempts ≤ Register.count + 1) :
    frameDuration f = some (f.save.duration + f.restore.duration) := by
  obtain ⟨hsave, hrestore⟩ := h.named.instr
  have hlt := h.duration_lt hattempts
  unfold Frame.duration at hlt
  rw [frameDuration, groupDuration_eq hsave (by omega), groupDuration_eq hrestore (by omega)]
  simp only [Option.bind_eq_bind, Option.bind_some]
  exact word_eq (by omega)

theorem Light.minus_eq (h : Light m w attempts f) (hattempts : attempts ≤ Register.count + 1)
    (hw : Signed w) : minus w (f.save.duration + f.restore.duration) =
      some (w.minus (f.save.duration + f.restore.duration)) ∧
      Signed (w.minus (f.save.duration + f.restore.duration)) := by
  have hlt := h.duration_lt hattempts
  have hfree := h.free
  have hlow := hw.low
  unfold Frame.duration at hlt hfree
  exact hw.minus (by omega) (by omega)

theorem Light.length_lt (h : Light m w attempts f) (hattempts : attempts ≤ Register.count + 1) :
    f.save.length + f.restore.length < bound32 := by
  obtain ⟨hsave, hrestore⟩ := h.named.instr
  have hsize := (h.mono hattempts).size
  unfold Frame.size at hsize
  rw [Group.length_of_instr hsave, Group.length_of_instr hrestore]
  have hshort : (Register.count + 1) * 4 < bound32 := by decide
  exact Nat.lt_of_le_of_lt hsize hshort

theorem ensures_spill {c : Catalog} {limit : Nat} (f : Frame) :
    Ensures (Session.Sized c limit) (fun _ _ => True) (y.spill f) fun p =>
      ∀ outcome, p.1 = .ok outcome → f.Step y.machine outcome p.2 := by
  unfold Synthesizer.spill
  split
  · rename_i outcome g hrun
    refine (ensures_record _).bind fun _ _ => .of_pure ?_
    rintro _ ⟨⟩
    exact Frame.step_of_run hrun
  · exact .of_pure nofun

/-- Freeing registers keeps the frame light, and nothing is out of range. -/
theorem inRange_freeRegisters? (hrows : ∀ row ∈ y.machine.catalog.rows, row.duration < bound32)
    {test : SpillTest} (htest : Restrained test) {c : Catalog} {limit : Nat} (hw : Signed w) (n : Nat)
    (hf : Light y.machine w attempts f) (hn : attempts + n = Register.count + 1) :
    InRange (Session.Sized c limit) (y.freeRegisters? test w n f) (freeRegisters? y test w n f)
      fun found => ∀ g ∈ found, Light y.machine w (Register.count + 1) g := by
  induction n generalizing f attempts with
  | zero =>
    refine .of_pure ?_
    rintro _ ⟨⟩
    exact hf.mono (by omega)
  | succ n ih =>
    obtain ⟨hminus, hleft⟩ := hf.minus_eq (by omega) hw
    refine InRange.demand_bind (hf.frameDuration_eq (by omega)) ?_
    refine InRange.demand_bind hminus ?_
    refine (InRange.of_lift (ensures_ofCatalog _)).bind fun asked hasked => ?_
    cases asked with
    | false =>
      refine .of_pure ?_
      rintro _ ⟨⟩
      exact hf.mono (by omega)
    | true =>
      have hpos : 0 < w.min := by
        by_contra hneg
        refine htest _ _ hleft.low ?_ hasked
        have hlt := hf.duration_lt (by omega)
        unfold Frame.duration at hlt
        rw [Window.minus_of_lt (by omega)]
        show w.min - (f.save.duration + f.restore.duration : Nat) ≤ 0
        omega
      refine (InRange.of_lift (ensures_spill f)).bind fun attempt hspill => ?_
      obtain ⟨result, g⟩ := attempt
      refine (InRange.of_lift (ensures_ofCatalog _)).bind fun outcome houtcome => ?_
      have hg := hf.step hrows hpos (hspill outcome houtcome)
      cases outcome with
      | memory r => exact ih hg (by omega)
      | stack r => exact ih hg (by omega)
      | nothingToFree =>
        refine .of_pure ?_
        rintro _ ⟨⟩
        exact hg.mono (by omega)
      | infeasible =>
        refine .of_pure ?_
        rintro _ ⟨⟩

end Checked

end DelaySynth
