import DelaySynth.Proofs.Machine
import DelaySynth.Proofs.Target.I8085
import Mathlib.Logic.Function.Basic

/-!
# Transfers of the Intel 8085

The code around a main part moves bytes between registers, memory cells and the stack. `Transfer` has
the five kinds of such instructions, `decode?` reads them off their assembler text, and `Contents.run?`
executes a sequence of them on the registers, the flags, the cells and the stack.

Memory cells are what `locate` makes of an address, which may be any function, and the stack lies apart
from them.

* `decode?_move`, `decode?_store`, `decode?_load`, `decode?_push`, `decode?_pop`: what the
  instructions mean that save and restore registers.
* `regs_write_read`: a unit that is written with what was read from it has its registers back.
-/

namespace DelaySynth.I8085

open Register

/-! ## Kinds of transfers -/

/-- What a push or a pop moves: a pair of registers, or the accumulator together with the flags. -/
inductive StackUnit where
  /-- The accumulator and the flags. -/
  | psw
  /-- The registers B and C. -/
  | bc
  /-- The registers D and E. -/
  | de
  /-- The registers H and L. -/
  | hl
deriving DecidableEq

namespace StackUnit

/-- All units. -/
def all : List StackUnit := [psw, bc, de, hl]

/-- The name of the unit in the text of an instruction. -/
def name : StackUnit → String
  | psw => "PSW"
  | bc => "B"
  | de => "D"
  | hl => "H"

/-- The registers that the unit moves. -/
def registers : StackUnit → List Register
  | psw => [a]
  | bc => [b, c]
  | de => [d, e]
  | hl => [h, l]

/-- The unit that a named register belongs to. -/
def ofRegister (r : Register) : StackUnit :=
  match r.number with
  | 0 => psw
  | 1 | 2 => bc
  | 3 | 4 => de
  | _ => hl

end StackUnit

/-- An instruction that moves bytes. -/
inductive Transfer where
  /-- Copies a register. -/
  | copy (dest src : Register)
  /-- Stores the accumulator. -/
  | store (address : String)
  /-- Loads the accumulator. -/
  | load (address : String)
  /-- Pushes a unit. -/
  | push (u : StackUnit)
  /-- Pops a unit. -/
  | pop (u : StackUnit)
deriving DecidableEq

/-- The transfers without an address, under their texts. -/
def transferTexts : List (String × Transfer) :=
  (Register.all.flatMap fun d =>
    Register.all.map fun s => ("MOV " ++ d.name ++ "," ++ s.name, .copy d s)) ++
  StackUnit.all.map (fun u => ("PUSH " ++ u.name, .push u)) ++
  StackUnit.all.map (fun u => ("POP " ++ u.name, .pop u))

/-- The meaning of an instruction that moves bytes. -/
def decode? (i : Instruction) : Option Transfer :=
  match i.operand? with
  | none => transferTexts.lookup i.template
  | some (.address address) =>
    if i.template = "STA 16b" then some (.store address)
    else if i.template = "LDA 16b" then some (.load address)
    else none
  | some _ => none

/-! ## Execution -/

/-- What the machine holds, with memory cells named by `κ`. -/
structure Contents (κ : Type) where
  /-- The registers. -/
  regs : Register → UInt8
  /-- The flags. -/
  flags : UInt8
  /-- The memory cells. -/
  cells : κ → UInt8
  /-- What has been pushed, the latest first. -/
  stack : List (UInt8 × UInt8)
  /-- The stack pointer. -/
  sp : BitVec 16

namespace Contents

variable {κ : Type}

/-- The contents with another value in a register. -/
def set (s : Contents κ) (r : Register) (v : UInt8) : Contents κ :=
  { s with regs := Function.update s.regs r v }

/-- The two bytes of a unit. -/
def read (s : Contents κ) : StackUnit → UInt8 × UInt8
  | .psw => (s.regs a, s.flags)
  | .bc => (s.regs b, s.regs c)
  | .de => (s.regs d, s.regs e)
  | .hl => (s.regs h, s.regs l)

/-- The contents with other bytes in a unit. -/
def write (s : Contents κ) (p : UInt8 × UInt8) : StackUnit → Contents κ
  | .psw => { s.set a p.1 with flags := p.2 }
  | .bc => (s.set b p.1).set c p.2
  | .de => (s.set d p.1).set e p.2
  | .hl => (s.set h p.1).set l p.2

variable [DecidableEq κ] (locate : String → κ)

/-- One transfer. Nothing can be popped from an empty stack. -/
def transfer? (s : Contents κ) : Transfer → Option (Contents κ)
  | .copy dest src => some (s.set dest (s.regs src))
  | .store address => some { s with cells := Function.update s.cells (locate address) (s.regs a) }
  | .load address => some (s.set a (s.cells (locate address)))
  | .push u => some { s with stack := s.read u :: s.stack, sp := s.sp - 2 }
  | .pop u =>
    match s.stack with
    | [] => none
    | p :: stack => some { s.write p u with stack, sp := s.sp + 2 }

/-- One piece of code, which has to be an instruction that moves bytes. -/
def exec? (s : Contents κ) : Code → Option (Contents κ)
  | .instr i => (decode? i).bind (s.transfer? locate)
  | _ => none

/-- A sequence of pieces of code. -/
def run? (s : Contents κ) (items : List Code) : Option (Contents κ) :=
  items.foldlM (exec? locate) s

variable {locate : String → κ} {s t : Contents κ}

theorem run?_cons {code : Code} {items : List Code} :
    s.run? locate (code :: items) = (s.exec? locate code).bind fun t => t.run? locate items := rfl

theorem run?_append {xs ys : List Code} :
    s.run? locate (xs ++ ys) = (s.run? locate xs).bind fun t => t.run? locate ys := by
  unfold run?
  rw [List.foldlM_append]
  rfl

theorem run?_append_of_eq_some {xs ys : List Code} (h : s.run? locate xs = some t) :
    s.run? locate (xs ++ ys) = t.run? locate ys := by
  rw [run?_append, h, Option.bind_some]

theorem run?_cons_of_decode? {i : Instruction} {x : Transfer} {items : List Code}
    (h : decode? i = some x) (hx : s.transfer? locate x = some t) :
    s.run? locate (.instr i :: items) = t.run? locate items := by
  rw [run?_cons, exec?, h, Option.bind_some, hx, Option.bind_some]

omit [DecidableEq κ]

@[simp] theorem regs_set_self {r : Register} {v : UInt8} : (s.set r v).regs r = v := by
  show Function.update s.regs r v r = v
  rw [Function.update_self]

theorem regs_set_of_ne {q r : Register} {v : UInt8} (h : q ≠ r) :
    (s.set r v).regs q = s.regs q := by
  show Function.update s.regs r v q = s.regs q
  rw [Function.update_of_ne h]

@[simp] theorem cells_write {p : UInt8 × UInt8} {u : StackUnit} : (s.write p u).cells = s.cells := by
  cases u <;> rfl

theorem regs_write_read {q : Register} {u : StackUnit} (h : q ∈ u.registers) :
    (t.write (s.read u) u).regs q = s.regs q := by
  cases u <;> simp only [StackUnit.registers, List.mem_cons, List.not_mem_nil, or_false] at h
  case psw =>
    subst h
    show (t.set a (s.regs a)).regs a = s.regs a
    exact regs_set_self
  all_goals
    rcases h with rfl | rfl
    · exact (regs_set_of_ne (by decide)).trans regs_set_self
    · exact regs_set_self

theorem regs_write_of_not_mem {q : Register} {u : StackUnit} {p : UInt8 × UInt8}
    (h : q ∉ u.registers) : (s.write p u).regs q = s.regs q := by
  cases u <;> simp only [StackUnit.registers, List.mem_cons, List.not_mem_nil, or_false, not_or] at h
  case psw => exact regs_set_of_ne h
  all_goals exact (regs_set_of_ne h.2).trans (regs_set_of_ne h.1)

end Contents

/-! ## What saves and restores registers -/

variable {q r : Register} {i : Instruction} {address : String}

theorem lookup_transferTexts : ∀ p ∈ transferTexts, transferTexts.lookup p.1 = some p.2 := by
  decide +kernel

theorem name_ofRegister : ∀ r ∈ Register.all, stackUnit? r = some (StackUnit.ofRegister r).name := by
  decide +kernel

theorem mem_registers_ofRegister : ∀ r ∈ Register.all, r ∈ (StackUnit.ofRegister r).registers := by
  decide +kernel

/-- An instruction without an operand means what its template is the text of. -/
theorem decode?_of_mem {template : String} {t : Transfer}
    (h : machine.instruction template none = .ok i) (ht : (template, t) ∈ transferTexts) :
    decode? i = some t := by
  have htemplate := Machine.template_of_instruction h
  obtain ⟨row, -, rfl⟩ := Machine.instruction_eq_ok h
  have hoperand : (row.instantiate none).operand? = none := by simp [Row.instantiate]
  unfold decode?
  rw [hoperand]
  show transferTexts.lookup (row.instantiate none).template = some t
  rw [htemplate]
  exact lookup_transferTexts _ ht

theorem decode?_move (hq : q.Named) (hr : r.Named) (h : machine.move q r = .ok i) :
    decode? i = some (.copy q r) := by
  refine decode?_of_mem h (List.mem_append_left _ (List.mem_append_left _ ?_))
  refine List.mem_flatMap.mpr ⟨q, Register.mem_all.mpr hq, ?_⟩
  exact List.mem_map.mpr ⟨r, Register.mem_all.mpr hr, rfl⟩

theorem decode?_store (h : machine.store address = .ok i) : decode? i = some (.store address) := by
  have htemplate : i.template = "STA 16b" := Machine.template_of_instruction h
  have hoperand := Machine.operand?_of_instruction (by decide +kernel) h
  unfold decode?
  rw [hoperand]
  simp [htemplate]

theorem decode?_push {u : StackUnit} (h : machine.instruction ("PUSH " ++ u.name) none = .ok i) :
    decode? i = some (.push u) := by
  refine decode?_of_mem h (List.mem_append_left _ (List.mem_append_right _ ?_))
  exact List.mem_map.mpr ⟨u, by cases u <;> decide, rfl⟩

theorem decode?_pop {u : StackUnit} (h : machine.instruction ("POP " ++ u.name) none = .ok i) :
    decode? i = some (.pop u) := by
  refine decode?_of_mem h (List.mem_append_right _ ?_)
  exact List.mem_map.mpr ⟨u, by cases u <;> decide, rfl⟩

/-- Where an instruction tells its unit, instructions are equal if and only if their units are. -/
theorem eq_iff_unit_eq {text : StackUnit → String} {kind : StackUnit → Transfer}
    (hkind : ∀ u v, kind u = kind v → u = v)
    (hdecode : ∀ u i, machine.instruction (text u) none = .ok i → decode? i = some (kind u))
    {u v : StackUnit} {j : Instruction} (hi : machine.instruction (text u) none = .ok i)
    (hj : machine.instruction (text v) none = .ok j) : i = j ↔ u = v := by
  constructor
  · rintro rfl
    exact hkind u v (Option.some.inj ((hdecode u i hi).symm.trans (hdecode v i hj)))
  · rintro rfl
    exact Except.ok.inj (hi.symm.trans hj)

theorem push?_eq_ok (hr : r.Named) (h : machine.push? r = .ok (some i)) :
    machine.instruction ("PUSH " ++ (StackUnit.ofRegister r).name) none = .ok i := by
  obtain ⟨template, htemplate, hi⟩ := Machine.instruction_of_mapM h
  have hunit : target.pushTemplate? r = some ("PUSH " ++ (StackUnit.ofRegister r).name) :=
    congrArg (Option.map ("PUSH " ++ ·)) (name_ofRegister r (Register.mem_all.mpr hr))
  obtain rfl := Option.some.inj (hunit.symm.trans htemplate)
  exact hi

theorem pop?_eq_ok (hr : r.Named) (h : machine.pop? r = .ok (some i)) :
    machine.instruction ("POP " ++ (StackUnit.ofRegister r).name) none = .ok i := by
  obtain ⟨template, htemplate, hi⟩ := Machine.instruction_of_mapM h
  have hunit : target.popTemplate? r = some ("POP " ++ (StackUnit.ofRegister r).name) :=
    congrArg (Option.map ("POP " ++ ·)) (name_ofRegister r (Register.mem_all.mpr hr))
  obtain rfl := Option.some.inj (hunit.symm.trans htemplate)
  exact hi

theorem decode?_load (h : machine.load address = .ok i) : decode? i = some (.load address) := by
  have htemplate : i.template = "LDA 16b" := Machine.template_of_instruction h
  have hoperand := Machine.operand?_of_instruction (by decide +kernel) h
  unfold decode?
  rw [hoperand]
  simp [htemplate]

end DelaySynth.I8085
