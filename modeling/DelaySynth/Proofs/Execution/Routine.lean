import DelaySynth.Proofs.Execution.Rounds
import Std.Data.String.ToNat

/-!
# Routines take as long as they say

The duration of a routine is a number that is computed from its tree. On the machine that executes
listings it is the number of cycles that are spent from the first line to the end, whatever the
registers hold and whatever the fillers do.

* `nodup_labels`: no two loops of a routine have the same label.
* `routine_executes`: the run of a routine that is built, its cycles and its path.
-/

namespace DelaySynth.I8085

theorem loopLabel_injective {depth depth' : Nat}
    (h : target.loopLabel depth = target.loopLabel depth') : depth = depth' := by
  have hdigits : "loop" ++ toString depth = "loop" ++ toString depth' := h
  exact Nat.repr_inj.mp ((String.append_right_inj _).mp hdigits)

/-! ## Around the main part -/

theorem listed_of_instruction {template : String} {operand? : Option Operand} {i : Instruction}
    (h : machine.instruction template operand? = .ok i) : Listed i :=
  Machine.lookup_of_instruction h

variable {listing : List Item} {choose : State → Choice} {start : Nat} {g : Group Code}

theorem passes_group_around (hg : ∀ code ∈ g.items, machine.Names code)
    (hat : At listing start (g.tagged .around)) :
    Passes listing choose [] start g.lines.length g.duration (g.path start) := by
  refine passes_group (fun code hcode => ?_) hat
  obtain ⟨i, _, _, rfl, hi⟩ := hg code hcode
  exact ⟨i, rfl, fun _ => passes_around (listed_of_instruction hi)⟩

theorem passes_ret {ret? : Option Instruction} (hret : ∀ i ∈ ret?, machine.ret = .ok i)
    (hat : At listing start (ret?.toList.map (.instr .around))) :
    Passes listing choose [] start ret?.toList.length ((ret?.map Instruction.duration).getD 0)
      (List.range' start ret?.toList.length) := by
  cases ret? with
  | none => exact .refl
  | some i => exact passes_around (listed_of_instruction (hret i rfl)) hat.getElem?_eq

theorem labels_group_around (hg : ∀ code ∈ g.items, machine.Names code) :
    Item.labels (g.tagged .around) = [] := by
  obtain ⟨items, ordered⟩ := g
  rw [Group.tagged]
  refine Code.labels_allTagged fun code hcode => ?_
  obtain ⟨i, _, _, hi, -⟩ := hg code hcode
  exact ⟨i, hi⟩

/-! ## The whole routine -/

/-- What the execution of a routine relies on. -/
structure Executable (routine : Routine Code) : Prop where
  save : ∀ code ∈ routine.save.items, machine.Names code
  restore : ∀ code ∈ routine.restore.items, machine.Names code
  returns : ∀ i ∈ routine.ret?, machine.ret = .ok i
  main : ∃ memory granted, Admitted machine memory granted [] routine.main

theorem executable_of_routineFound {y : Synthesizer} (hy : y.machine = machine) {test : SpillTest}
    {r : Request} {f : Frame} {routine : Routine Code} (h : y.RoutineFound test r f routine) :
    Executable routine := by
  obtain ⟨freed, -, hspills⟩ := h.spills
  obtain ⟨hsave, hrestore⟩ := hspills.named ⟨nofun, nofun⟩
  obtain ⟨_, -, hmain⟩ := h.main
  rw [hy] at hsave hrestore
  exact
    { save := h.save ▸ hsave
      restore := h.restore ▸ hrestore
      returns := fun i hi => hy ▸ h.returns i hi
      main := ⟨_, _, hy ▸ hmain.admitted⟩ }

variable {routine : Routine Code}

theorem nodup_labels (h : Executable routine) : (Item.labels routine.tagged).Nodup := by
  obtain ⟨_, _, hmain⟩ := h.main
  obtain ⟨n, hlabels⟩ := hmain.labels_tagged
  have hret : Item.labels (routine.ret?.toList.map (.instr .around)) = [] := by
    cases routine.ret? <;> rfl
  rw [routine.tagged_eq, Item.labels_append, Item.labels_append, Item.labels_append,
    labels_group_around h.save, labels_group_around h.restore, hret, hlabels]
  simp only [List.nil_append, List.append_nil]
  exact List.Nodup.map (fun _ _ => loopLabel_injective) List.nodup_range'

theorem passes_routine (h : Executable routine) (hlabels : (Item.labels listing).Nodup)
    (hat : At listing start routine.tagged) :
    Passes listing choose [] start routine.lines.length routine.duration (routine.path start) := by
  obtain ⟨hsave, hrestore, hreturns, _, _, hmain⟩ := h
  obtain ⟨save, main, restore, ret?⟩ := routine
  rw [Routine.tagged] at hat
  have hmainAt := hat.before.before.after
  have hrestoreAt := hat.before.after
  have hretAt := hat.after
  simp only [List.length_append, Group.length_tagged, Code.length_tagged, ← Nat.add_assoc]
    at hmainAt hrestoreAt hretAt
  have hsavePass : Passes listing choose [] start _ _ _ :=
    passes_group_around hsave hat.before.before.before
  have hpass := hsavePass.append ((passes_of_admitted hmain hlabels hmainAt).append
      ((passes_group_around hrestore hrestoreAt).append (passes_ret hreturns hretAt)))
  have hlength : save.lines.length + (main.lines.length + (restore.lines.length +
      ret?.toList.length)) = (Routine.lines ⟨save, main, restore, ret?⟩).length := by
    rw [Routine.lines]
    simp only [List.length_append, List.length_map]
    omega
  have hcycles : save.duration + (main.duration + (restore.duration +
      (ret?.map Instruction.duration).getD 0)) =
      (Routine.duration ⟨save, main, restore, ret?⟩) := by
    rw [Routine.duration]
    omega
  rw [hlength, hcycles, ← List.append_assoc, ← List.append_assoc] at hpass
  rw [Routine.path]
  exact hpass

/-- A routine that is built executes its listing to the end in exactly its duration, from all register
contents and for all that the instructions may choose. On the way it visits the lines of its path, on
which every loop body stands as often as the loop says. -/
theorem routine_executes (config : Config) (keepTables : Bool) (test : SpillTest) (r : Request)
    {routine : Routine Code} {stats : Stats}
    (h : ({ machine, config, keepTables } : Synthesizer).buildWith test r =
      .ok (some routine, stats)) (choose : State → Choice) (regs : Register → UInt8) (zero : Bool) :
    routine.tagged.map Item.line = routine.lines ∧ (Item.labels routine.tagged).Nodup ∧
    ∃ t, Reaches routine.tagged choose { line := 0, regs, zero, cycles := 0, visited := [] } t ∧
      step? routine.tagged choose t = none ∧ t.line = routine.lines.length ∧
      t.cycles = routine.duration ∧ t.visited = routine.path 0 := by
  obtain ⟨f, hfound⟩ := Synthesizer.routineFound_of_build h
  have hexecutable := executable_of_routineFound rfl hfound
  have hlabels := nodup_labels hexecutable
  obtain ⟨t, hreaches, hline, hcycles, hvisited, -⟩ :=
    passes_routine hexecutable hlabels (At.whole _)
      { line := 0, regs, zero, cycles := 0, visited := [] } rfl
  rw [Nat.zero_add] at hline
  refine ⟨routine.line_tagged, hlabels, t, hreaches, ?_, hline, ?_, hvisited⟩
  · have hend : routine.tagged[t.line]? = none := by
      rw [hline, ← routine.line_tagged, List.length_map]
      exact List.getElem?_eq_none (Nat.le_refl _)
    unfold step?
    rw [hend]
    rfl
  · rw [hcycles]
    exact Nat.zero_add _

set_option maxRecDepth 100000 in
theorem routine_executes_nested : ∃ routine stats,
    synthesizer.buildWith (fun _ _ => .ok false)
      { min := 20000, max := 20010, resources := [.register "B", .register "D"], budget := 12 } =
      .ok (some routine, stats) ∧
    ∀ choose regs, ∃ t, Reaches routine.tagged choose
      { line := 0, regs, zero := false, cycles := 0, visited := [] } t ∧
      t.line = routine.lines.length ∧ t.cycles = routine.duration := by
  have hbuilt : (Synthesizer.built? <| synthesizer.buildWith (fun _ _ => .ok false)
      { min := 20000, max := 20010, resources := [.register "B", .register "D"],
        budget := 12 }).isSome = true := by
    decide +kernel
  obtain ⟨routine, stats, h⟩ := Synthesizer.exists_of_isSome_built? hbuilt
  refine ⟨routine, stats, h, fun choose regs => ?_⟩
  obtain ⟨-, -, t, hreaches, -, hline, hcycles, -⟩ :=
    routine_executes {} true _ _ h choose regs false
  exact ⟨t, hreaches, hline, hcycles⟩

end DelaySynth.I8085
