import DelaySynth.Code.Listing
import DelaySynth.Proofs.Spill.Resources
import DelaySynth.Proofs.Target.I8085

/-!
# The way to memory

Memory is reached through the primary register alone, so another register is copied there before it is
stored, and what the primary register held is gone. That does no harm if the caller granted the primary
register, or if it has been saved before. Registers are freed in the order of their numbers, though,
whichever of them a target names as the primary one: a register with a lower number is copied into it
while it still holds a value of the caller.

* `Attempts`: attempts to free a register one after the other, of which some may fail.
* `Attempts.number_lt`: registers are freed in ascending order.
* `copy_harmless_iff`: a copy does no harm if the caller granted the primary register or if its number
  is below that of the copied register, and in no other case.
* `copy_harmful`: with B as the primary register, the copy of A takes away the value that B has for the
  caller, and what is saved as B later is the value of A.
-/

namespace DelaySynth.Frame

variable {m : Machine} {f g : Frame} {r q : Register} {freed : List Register}

/-- Attempts to free a register one after the other, together with the registers that they free. -/
inductive Attempts (m : Machine) : Frame → List Register → Frame → Prop
  | refl (f : Frame) : Attempts m f [] f
  | ok {f g h : Frame} {freed : List Register} {outcome : SpillOutcome}
      (before : Attempts m f freed g) (last : (spill m).run g = .ok outcome h) :
      Attempts m f (freed ++ outcome.freed?.toList) h
  | error {f g h : Frame} {freed : List Register} {e : CatalogError}
      (before : Attempts m f freed g) (last : (spill m).run g = .error e h) : Attempts m f freed h

theorem Step.mem_ofResources_iff {outcome : SpillOutcome} (h : Step m f outcome g) :
    q ∈ ResourceSet.ofResources g.resources ↔
      q ∈ ResourceSet.ofResources f.resources ∨ outcome.freed? = some q := by
  cases hfreed : outcome.freed? with
  | some r => rw [h.mem_ofResources hfreed, Option.some_inj, eq_comm]
  | none =>
    have hsame : g = f := by cases h <;> first | rfl | cases hfreed
    simp [hsame]

theorem Attempts.mem_ofResources (h : Attempts m f freed g) :
    q ∈ ResourceSet.ofResources g.resources ↔
      q ∈ ResourceSet.ofResources f.resources ∨ q ∈ freed := by
  induction h with
  | refl => simp
  | ok before last ih =>
    rw [(step_of_run last).mem_ofResources_iff, ih, List.mem_append, Option.mem_toList, or_assoc]
  | error before last ih => rw [resources_of_run_error last, ih]

/-- A register that is missing still has a higher number than all that have been freed. -/
theorem Attempts.number_lt (h : Attempts m f freed g) (hq : q ∈ freed)
    (hr : r ∉ ResourceSet.ofResources g.resources) : q.number < r.number := by
  induction h with
  | refl => cases hq
  | error before last ih => exact ih hq (resources_of_run_error last ▸ hr)
  | ok before last ih =>
    have hstep := step_of_run last
    rw [hstep.mem_ofResources_iff, not_or] at hr
    obtain ⟨hmissing, hother⟩ := hr
    rcases List.mem_append.mp hq with hq | hq
    · exact ih hq hmissing
    · have hfreed := Option.mem_toList.mp hq
      obtain ⟨-, -, hlower⟩ := lowestUngranted?_eq_some (hstep.lowest hfreed)
      have hle : q.number ≤ r.number := Nat.le_of_not_lt fun hlt => hmissing (hlower r hlt)
      exact Nat.lt_of_le_of_ne hle fun heq => hother (Register.ext heq ▸ hfreed)

/-- A register other than the primary one is copied into it right before it is stored. -/
theorem Step.save_of_copied (h : Step m f (.memory r) g) (hr : r ≠ m.target.primary) :
    ∃ copy store address, m.move m.target.primary r = .ok copy ∧ m.store address = .ok store ∧
      g.save.items = f.save.items ++ [.instr copy, .instr store] := by
  cases h with
  | primary _ _ isPrimary => exact absurd isPrimary hr
  | @copied _ address resources out store back load _ _ _ outOk storeOk =>
    exact ⟨out, store, address, outOk, storeOk, by simp [Group.append]⟩

/-- When a register is copied into the primary one, the caller granted the primary register or it has
been saved before, unless its number is above that of the copied register and the caller did not grant
it. So all copies are harmless if the caller grants every register below the primary one, of which there
is none if the primary register is A. -/
theorem copy_harmless_iff {rs : List Resource} (before : Attempts m { resources := rs } freed f)
    (last : (spill m).run f = .ok (.memory r) g) (hr : r ≠ m.target.primary) :
    (∃ copy store address, m.move m.target.primary r = .ok copy ∧ m.store address = .ok store ∧
      g.save.items = f.save.items ++ [.instr copy, .instr store]) ∧
    ((m.target.primary ∈ ResourceSet.ofResources rs ∨ m.target.primary ∈ freed) ↔
      (m.target.primary ∈ ResourceSet.ofResources rs ∨ m.target.primary.number < r.number)) ∧
    ((∀ q : Register, q.number < m.target.primary.number → q ∈ ResourceSet.ofResources rs) →
      m.target.primary ∈ ResourceSet.ofResources rs ∨ m.target.primary ∈ freed) := by
  have hstep := step_of_run last
  obtain ⟨-, hmissing, hlower⟩ := lowestUngranted?_eq_some (hstep.lowest rfl)
  have hgranted (hlt : m.target.primary.number < r.number) :
      m.target.primary ∈ ResourceSet.ofResources rs ∨ m.target.primary ∈ freed :=
    before.mem_ofResources.mp (hlower _ hlt)
  refine ⟨hstep.save_of_copied hr, ⟨?_, ?_⟩, fun hbelow => hgranted ?_⟩
  · rintro (hcaller | hfreed)
    · exact .inl hcaller
    · exact .inr (before.number_lt hfreed hmissing)
  · rintro (hcaller | hlt)
    · exact .inl hcaller
    · exact hgranted hlt
  · -- The copied register is not below the primary one, for the caller granted those.
    have hle : m.target.primary.number ≤ r.number := Nat.le_of_not_lt fun hlt =>
      hmissing (before.mem_ofResources.mpr (.inl (hbelow r hlt)))
    exact Nat.lt_of_le_of_ne hle fun heq => hr (Register.ext heq.symm)

end DelaySynth.Frame

namespace DelaySynth.I8085

/-- The machine with B in the place of the accumulator. -/
def machineThroughB : Machine := { machine with target := { target with primary := Register.b } }

/-- The caller grants A, which is the only register below B. So B is saved before C is copied into
it. -/
theorem copy_harmless_third : ∃ f g : Frame,
    Frame.Attempts machineThroughB
      { resources := [.register "A", .memory "2000H", .memory "3000H"] } [Register.b] f ∧
    (Frame.spill machineThroughB).run f = .ok (.memory Register.c) g ∧
    Register.c ≠ machineThroughB.target.primary ∧
    (Register.b ∈ ResourceSet.ofResources [.register "A", .memory "2000H", .memory "3000H"] ∨
      Register.b ∈ [Register.b]) := by
  have first : (Frame.spill machineThroughB).run
      { resources := [.register "A", .memory "2000H", .memory "3000H"] } =
      .ok (.memory Register.b)
        { resources := [.register "A", .register "B", .memory "3000H"]
          save := { items := [.instr ⟨"STA 16b", some .word, some (.address "2000H"), 13⟩] }
          restore := { items := [.instr ⟨"LDA 16b", some .word, some (.address "2000H"), 13⟩] } } :=
    rfl
  have second : (Frame.spill machineThroughB).run
      { resources := [.register "A", .register "B", .memory "3000H"]
        save := { items := [.instr ⟨"STA 16b", some .word, some (.address "2000H"), 13⟩] }
        restore := { items := [.instr ⟨"LDA 16b", some .word, some (.address "2000H"), 13⟩] } } =
      .ok (.memory Register.c)
        { resources := [.register "A", .register "B", .register "C"]
          save := { items := [.instr ⟨"STA 16b", some .word, some (.address "2000H"), 13⟩,
            .instr ⟨"MOV B,C", none, none, 4⟩,
            .instr ⟨"STA 16b", some .word, some (.address "3000H"), 13⟩] }
          restore := { items := [.instr ⟨"LDA 16b", some .word, some (.address "3000H"), 13⟩,
            .instr ⟨"MOV C,B", none, none, 4⟩,
            .instr ⟨"LDA 16b", some .word, some (.address "2000H"), 13⟩] } } :=
    rfl
  have hattempts := Frame.Attempts.ok (.refl _) first
  have hbelow (q : Register) (hq : q.number < Register.b.number) :
      q ∈ ResourceSet.ofResources [.register "A", .memory "2000H", .memory "3000H"] := by
    obtain rfl : q = Register.a := Register.ext (Nat.lt_one_iff.mp hq)
    decide +kernel
  obtain ⟨-, -, hharmless⟩ := Frame.copy_harmless_iff hattempts second (by decide)
  exact ⟨_, _, hattempts, second, by decide, hharmless hbelow⟩

/-- Nothing is granted but two cells. A is copied into B, which has not been saved, and the value that is
saved as that of B later is the value of A. -/
theorem copy_harmful : ∃ f g : Frame,
    (Frame.spill machineThroughB).run { resources := [.memory "2000H", .memory "3000H"] } =
      .ok (.memory Register.a) f ∧
    Register.b ∉ ResourceSet.ofResources [.memory "2000H", .memory "3000H"] ∧
    f.save.render = "\tMOV B,A\n\tSTA 2000H\n" ∧
    (Frame.spill machineThroughB).run f = .ok (.memory Register.b) g ∧
    g.save.render = "\tMOV B,A\n\tSTA 2000H\n\tSTA 3000H\n" :=
  ⟨_, _, rfl, by decide +kernel, by decide +kernel, rfl, by decide +kernel⟩

end DelaySynth.I8085
