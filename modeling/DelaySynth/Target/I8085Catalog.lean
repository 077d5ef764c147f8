import DelaySynth.Catalog.Basic

/-!
# Instruction table of the Intel 8085

Durations are those of the taken path for conditional branches and returns. An instruction that
addresses memory through a register pair is not usable as filler, because nothing shows that the pair
points at a granted cell.
-/

namespace DelaySynth.I8085

open Register

/-- The set of some registers. -/
def regs (rs : List Register) : ResourceSet := rs.foldl ResourceSet.insert ∅

/-- The need of one memory cell, besides some registers. -/
def cell (rs : List Register) : ResourceSet := (regs rs).addMemory 1

/-- The need of the stack, besides some registers. -/
def onStack (rs : List Register) : ResourceSet := (regs rs).addStack

/-- A row whose instruction may be used as filler. -/
def filler (template : String) (duration size : Nat) (needs : ResourceSet) : Row :=
  { template, duration, size, needs }

/-- A row whose instruction may not be used as filler. -/
def fixed (template : String) (duration size : Nat) (needs : ResourceSet) : Row :=
  { template, duration, size, needs, usable := false }

/-- Comparisons of the accumulator, which change flags alone. -/
def comparisons : List Row :=
  all.map (fun r => filler ("CMP " ++ r.name) 4 1 ∅) ++ [fixed "CMP M" 7 1 (cell [])]

/-- Copies between registers and from and to memory. -/
def moves : List Row :=
  (all.flatMap fun d =>
    all.map (fun s => filler ("MOV " ++ d.name ++ "," ++ s.name) 4 1 (regs [d])) ++
      [fixed ("MOV " ++ d.name ++ ",M") 7 1 (cell [d])]) ++
    all.map fun s => fixed ("MOV M," ++ s.name) 7 1 (cell [])

/-- Loads of immediate bytes. -/
def immediateMoves : List Row :=
  all.map (fun r => filler ("MVI " ++ r.name ++ ",8b") 7 2 (regs [r])) ++
    [fixed "MVI M,8b" 10 2 (cell [])]

/-- Increments and decrements of bytes. -/
def byteCounts : List Row :=
  all.map (fun r => filler ("INR " ++ r.name) 4 1 (regs [r])) ++
    all.map (fun r => filler ("DCR " ++ r.name) 4 1 (regs [r])) ++
    [fixed "INR M" 10 1 (cell []), fixed "DCR M" 10 1 (cell [])]

/-- The register pairs, under the names of their high registers. -/
def pairs : List (String × List Register) := [("B", [b, c]), ("D", [d, e]), ("H", [h, l])]

/-- Increments, decrements, loads and additions of register pairs. -/
def pairArithmetic : List Row :=
  (pairs.flatMap fun p =>
    [filler ("INX " ++ p.1) 6 1 (regs p.2), filler ("DCX " ++ p.1) 6 1 (regs p.2),
      filler ("LXI " ++ p.1 ++ ",16b") 10 3 (regs p.2)]) ++
    [fixed "INX SP" 6 1 (onStack []), fixed "DCX SP" 6 1 (onStack []),
      fixed "LXI SP,16b" 10 3 (onStack [])] ++
    pairs.map (fun p => filler ("DAD " ++ p.1) 10 1 (regs [h, l])) ++
    [filler "DAD SP" 10 1 (onStack [h, l])]

/-- Arithmetic and logic on the accumulator with a register or a memory cell. -/
def accumulatorOps : List Row :=
  ["ADD", "ADC", "SUB", "SBB", "ANA", "XRA", "ORA"].flatMap fun op =>
    all.map (fun r => filler (op ++ " " ++ r.name) 4 1 (regs [a])) ++
      [fixed (op ++ " M") 7 1 (cell [a])]

/-- Arithmetic and logic on the accumulator with an immediate byte. -/
def immediateOps : List Row :=
  ["ADI", "ACI", "SUI", "SBI", "ANI", "XRI", "ORI"].map fun op =>
    filler (op ++ " 8b") 7 2 (regs [a])

/-- Rotations and adjustments of the accumulator. -/
def accumulatorUnary : List Row :=
  ["RLC", "RRC", "RAL", "RAR", "CMA", "DAA"].map fun op => filler op 4 1 (regs [a])

/-- Loads and stores. -/
def transfers : List Row :=
  [filler "LDA 16b" 13 3 (cell [a]), filler "STA 16b" 13 3 (cell []),
    filler "LHLD 16b" 16 3 ((regs [h, l]).addMemory 2), filler "SHLD 16b" 16 3 ((regs []).addMemory 2),
    fixed "LDAX B" 7 1 (cell [a]), fixed "LDAX D" 7 1 (cell [a]),
    fixed "STAX B" 7 1 (cell []), fixed "STAX D" 7 1 (cell [])]

/-- Instructions that work on the stack. -/
def stackOps : List Row :=
  (pairs.flatMap fun p =>
    [fixed ("PUSH " ++ p.1) 12 1 (onStack []), fixed ("POP " ++ p.1) 10 1 (onStack p.2)]) ++
    [fixed "PUSH PSW" 12 1 (onStack []), fixed "POP PSW" 10 1 (onStack [a]),
      fixed "XTHL" 16 1 (onStack [h, l]), fixed "SPHL" 6 1 (onStack [])]

/-- Jumps, calls and returns. -/
def jumps : List Row :=
  fixed "PCHL" 6 1 ∅ ::
    (["JMP", "JNZ", "JZ", "JNC", "JC", "JPO", "JPE", "JP", "JM"].map fun op =>
      fixed (op ++ " 16b") 10 3 ∅) ++
    [fixed "CALL 16b" 18 3 (onStack []), fixed "RET" 10 1 (onStack [])] ++
    ["RNZ", "RZ", "RNC", "RC", "RST 0"].map fun op => fixed op 12 1 (onStack [])

/-- Input, output and control of the processor. -/
def control : List Row :=
  [fixed "IN 8b" 10 2 (regs [a]), fixed "OUT 8b" 10 2 ∅, fixed "EI" 4 1 ∅, fixed "DI" 4 1 ∅,
    fixed "HLT" 5 1 ∅, fixed "RIM" 4 1 (regs [a]), fixed "SIM" 4 1 ∅]

/-- The instruction table. The instructions that change no register come first, so that they are
preferred as filler. -/
def catalog : Catalog where
  rows :=
    [filler "NOP" 4 1 ∅, filler "CPI 8b" 7 2 ∅, filler "STC" 4 1 ∅, filler "CMC" 4 1 ∅] ++
      comparisons ++ moves ++ immediateMoves ++ byteCounts ++ pairArithmetic ++ accumulatorOps ++
      immediateOps ++ accumulatorUnary ++ [filler "XCHG" 4 1 (regs [d, e, h, l])] ++ transfers ++
      stackOps ++ jumps ++ control

end DelaySynth.I8085
