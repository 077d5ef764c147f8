import DelaySynth.Target.Basic
import DelaySynth.Target.I8085Catalog

/-!
# Intel 8085

Three register pairs can count wide loops and all seven registers narrow ones; both close with a jump
on a result that is not zero. The accumulator is the only register that goes to memory and back, and
the stack takes register pairs, or the accumulator together with the flags.
-/

namespace DelaySynth.I8085

open Register

/-- The name of the unit that a push or a pop of a register moves. -/
def stackUnit? (r : Register) : Option String :=
  match r.number with
  | 0 => some "PSW"
  | 1 | 2 => some "B"
  | 3 | 4 => some "D"
  | 5 | 6 => some "H"
  | _ => none

/-- The Intel 8085. -/
def target : Target where
  id := "8085"
  aliases := ["i8085", "intel8085"]
  catalog := catalog
  wideCounters := [(b, c), (d, e), (h, l)]
  narrowCounters := [b, c, d, e, a, h, l]
  maxIterations
    | .wide => 65535
    | .narrow => 255
  primary := a
  initTemplate
    | .wide, r => "LXI " ++ r.name ++ ",16b"
    | .narrow, r => "MVI " ++ r.name ++ ",8b"
  decrementTemplate
    | .wide, r => "DCX " ++ r.name
    | .narrow, r => "DCR " ++ r.name
  branchTemplate := "JNZ 16b"
  returnTemplate := "RET"
  moveTemplate dest src := "MOV " ++ dest.name ++ "," ++ src.name
  pushTemplate? r := (stackUnit? r).map ("PUSH " ++ ·)
  popTemplate? r := (stackUnit? r).map ("POP " ++ ·)
  loadTemplate := "LDA 16b"
  storeTemplate := "STA 16b"

end DelaySynth.I8085
