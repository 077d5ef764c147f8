import DelaySynth.Code.Listing

/-!
# Durations, lengths and lines of composed code

Durations, lengths and lines of a list of pieces add up along `++`, and a group takes over what
holds of its items.
-/

namespace DelaySynth

namespace Code

@[simp] theorem duration_instr (i : Instruction) : (Code.instr i).duration = i.duration := by
  rw [Code.duration]

@[simp] theorem duration_group (g : Group Code) : (Code.group g).duration = g.duration := by
  rw [Code.duration]

@[simp] theorem duration_loop (l : Loop Code) : (Code.loop l).duration = l.duration := by
  rw [Code.duration]

@[simp] theorem totalDuration_nil : totalDuration [] = 0 := by
  rw [totalDuration]

@[simp] theorem totalDuration_cons (c : Code) (cs : List Code) :
    totalDuration (c :: cs) = c.duration + totalDuration cs := by
  rw [totalDuration]

@[simp] theorem totalDuration_append (cs ds : List Code) :
    totalDuration (cs ++ ds) = totalDuration cs + totalDuration ds := by
  induction cs with
  | nil => simp
  | cons c cs ih => simp [ih]; omega

@[simp] theorem length_group (g : Group Code) : (Code.group g).length = g.length := by
  rw [Code.length]

@[simp] theorem length_loop (l : Loop Code) : (Code.loop l).length = l.length := by
  rw [Code.length]

theorem totalLength_instr (items : List Instruction) :
    totalLength (items.map Code.instr) = items.length := by
  induction items with
  | nil => rw [List.map_nil, totalLength]; rfl
  | cons i items ih =>
    rw [List.map_cons, totalLength, ih, Code.length, List.length_cons]
    omega

end Code

theorem Loop.length_eq (l : Loop Code) : l.length = 3 + l.body.length := by
  cases l
  rw [Loop.length]

namespace Group

theorem length_instructions (items : List Instruction) :
    (unordered (items.map Code.instr)).length = items.length := by
  rw [unordered, Group.length, Code.totalLength_instr]

theorem duration_eq (g : Group Code) : g.duration = Code.totalDuration g.items := by
  cases g
  rw [Group.duration]

@[simp] theorem duration_append (g : Group Code) (c : Code) :
    (g.append c).duration = g.duration + c.duration := by
  simp [duration_eq, append]

@[simp] theorem duration_prepend (g : Group Code) (c : Code) :
    (g.prepend c).duration = c.duration + g.duration := by
  simp [duration_eq, prepend]

@[simp] theorem duration_unordered (items : List Code) :
    (unordered items).duration = Code.totalDuration items := by
  simp [duration_eq, unordered]

end Group

theorem Routine.duration_eq (r : Routine Code) :
    r.duration = r.save.duration + r.main.duration + r.restore.duration +
      (r.ret?.map Instruction.duration).getD 0 := by
  cases r
  rw [Routine.duration]

end DelaySynth
