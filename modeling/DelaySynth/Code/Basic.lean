import DelaySynth.Instruction

/-!
# Generated code

Code is a tree: single instructions, sequences, counted loops and whole routines. The duration of a
piece of code is the number of cycles that it takes to run, and its length is the number of
instructions that stand in its listing.
-/

namespace DelaySynth

/-- A sequence of pieces of code. In an unordered group only the collection of the pieces matters,
but they are still written out in the order in which they are stored. -/
@[ext] structure Group (α : Type) where
  /-- The pieces, first to last. -/
  items : List α := []
  /-- Whether the order of the pieces matters. -/
  ordered : Bool := true
deriving DecidableEq, Inhabited

/-- A loop that counts down. The counter is loaded once; the body, the decrement and the branch back
to the label then run until the counter is zero. -/
@[ext] structure Loop (α : Type) where
  /-- Loads the counter. -/
  init : Instruction
  /-- What is repeated. -/
  body : α
  /-- Counts one iteration. -/
  decrement : Instruction
  /-- Jumps to the label while the counter is not zero. -/
  branch : Instruction
  /-- The name of the place right before the body. -/
  label : String
  /-- How often the body runs. -/
  iterations : Nat
deriving DecidableEq

/-- A complete delay routine. -/
@[ext] structure Routine (α : Type) where
  /-- Saves registers that the caller did not grant. -/
  save : Group α
  /-- Spends the cycles. -/
  main : α
  /-- Restores the saved registers. -/
  restore : Group α
  /-- Returns to the caller. -/
  ret? : Option Instruction
deriving DecidableEq

/-- A piece of generated code. -/
inductive Code where
  /-- A single instruction. -/
  | instr (i : Instruction)
  /-- A sequence. -/
  | group (g : Group Code)
  /-- A counted loop. -/
  | loop (l : Loop Code)
  /-- A routine. -/
  | routine (r : Routine Code)

instance : Inhabited Code := ⟨.instr default⟩

instance : Coe Instruction Code := ⟨.instr⟩

/-! ## Duration and length -/

mutual

/-- The number of cycles that the code takes. -/
def Code.duration : Code → Nat
  | .instr i => i.duration
  | .group g => g.duration
  | .loop l => l.duration
  | .routine r => r.duration

/-- The number of cycles that the pieces take one after the other. -/
def Group.duration : Group Code → Nat
  | ⟨items, _⟩ => Code.totalDuration items

/-- The cycles that load the counter, and those of each iteration. -/
def Loop.duration : Loop Code → Nat
  | ⟨init, body, decrement, branch, _, iterations⟩ =>
    init.duration + iterations * (body.duration + decrement.duration + branch.duration)

/-- The number of cycles from the first instruction to the return. -/
def Routine.duration : Routine Code → Nat
  | ⟨save, main, restore, ret?⟩ =>
    save.duration + main.duration + restore.duration + (ret?.map Instruction.duration).getD 0

/-- The number of cycles that a list of pieces takes. -/
def Code.totalDuration : List Code → Nat
  | [] => 0
  | c :: cs => c.duration + Code.totalDuration cs

end

/-- The number of cycles of one iteration, with the decrement and the branch. -/
def Loop.iterationDuration (l : Loop Code) : Nat :=
  l.body.duration + l.decrement.duration + l.branch.duration

mutual

/-- The number of instructions in the code. -/
def Code.length : Code → Nat
  | .instr _ => 1
  | .group g => g.length
  | .loop l => l.length
  | .routine r => r.length

/-- The number of instructions in all pieces. -/
def Group.length : Group Code → Nat
  | ⟨items, _⟩ => Code.totalLength items

/-- Three instructions control the loop; the others are those of the body. -/
def Loop.length : Loop Code → Nat
  | ⟨_, body, _, _, _, _⟩ => 3 + body.length

/-- The number of instructions in all parts. -/
def Routine.length : Routine Code → Nat
  | ⟨save, main, restore, ret?⟩ =>
    save.length + main.length + restore.length + ret?.toList.length

/-- The number of instructions in a list of pieces. -/
def Code.totalLength : List Code → Nat
  | [] => 0
  | c :: cs => c.length + Code.totalLength cs

end

theorem Loop.duration_eq (l : Loop Code) :
    l.duration = l.init.duration + l.iterations * l.iterationDuration := by
  cases l
  rw [Loop.duration, Loop.iterationDuration]

/-! ## Building groups -/

namespace Group

/-- The group with one more piece at its end. -/
def append (g : Group Code) (c : Code) : Group Code :=
  { g with items := g.items ++ [c] }

/-- The group with one more piece at its front. -/
def prepend (g : Group Code) (c : Code) : Group Code :=
  { g with items := c :: g.items }

/-- A group in which only the collection of the pieces matters. -/
def unordered (items : List Code) : Group Code :=
  { items, ordered := false }

end Group

/-! ## Equality -/

mutual

/-- Decides whether two pieces of code are equal. -/
def Code.decEq : (c d : Code) → Decidable (c = d)
  | .instr i, .instr j => decidable_of_iff (i = j) (by simp)
  | .group g, .group h =>
    haveI := Group.decEqCode g h
    decidable_of_iff (g = h) (by simp)
  | .loop l, .loop m =>
    haveI := Loop.decEqCode l m
    decidable_of_iff (l = m) (by simp)
  | .routine r, .routine s =>
    haveI := Routine.decEqCode r s
    decidable_of_iff (r = s) (by simp)
  | .instr _, .group _ | .instr _, .loop _ | .instr _, .routine _
  | .group _, .instr _ | .group _, .loop _ | .group _, .routine _
  | .loop _, .instr _ | .loop _, .group _ | .loop _, .routine _
  | .routine _, .instr _ | .routine _, .group _ | .routine _, .loop _ =>
    isFalse (by intro h; cases h)
termination_by structural c => c

/-- Decides whether two groups are equal. -/
def Group.decEqCode : (g h : Group Code) → Decidable (g = h)
  | ⟨cs, b⟩, ⟨ds, d⟩ =>
    haveI := Code.decEqList cs ds
    decidable_of_iff (cs = ds ∧ b = d) (by simp)
termination_by structural g => g

/-- Decides whether two loops are equal. -/
def Loop.decEqCode : (l m : Loop Code) → Decidable (l = m)
  | ⟨i, c, d, b, x, n⟩, ⟨i', c', d', b', x', n'⟩ =>
    haveI := Code.decEq c c'
    decidable_of_iff (i = i' ∧ c = c' ∧ d = d' ∧ b = b' ∧ x = x' ∧ n = n') (by simp)
termination_by structural l => l

/-- Decides whether two routines are equal. -/
def Routine.decEqCode : (r s : Routine Code) → Decidable (r = s)
  | ⟨g, c, h, x⟩, ⟨g', c', h', x'⟩ =>
    haveI := Group.decEqCode g g'
    haveI := Code.decEq c c'
    haveI := Group.decEqCode h h'
    decidable_of_iff (g = g' ∧ c = c' ∧ h = h' ∧ x = x') (by simp)
termination_by structural r => r

/-- Decides whether two lists of code are equal. -/
def Code.decEqList : (cs ds : List Code) → Decidable (cs = ds)
  | [], [] => isTrue rfl
  | c :: cs, d :: ds =>
    haveI := Code.decEq c d
    haveI := Code.decEqList cs ds
    decidable_of_iff (c = d ∧ cs = ds) (by simp)
  | [], _ :: _ | _ :: _, [] => isFalse (by intro h; cases h)
termination_by structural cs => cs

end

instance : DecidableEq Code := Code.decEq

end DelaySynth
