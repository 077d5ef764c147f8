/-!
# Numerals

Reading of unsigned numerals in base ten or sixteen and of signed decimal numerals. A numeral is
one or more ASCII digits, after an optional sign; a value outside the range asked for is refused.
-/

namespace DelaySynth.Text

/-- The value of an ASCII digit or letter, up to `f` for fifteen, if it is below `base`. -/
def digit? (base : Nat) (c : Char) : Option Nat :=
  let value? :=
    if '0' ≤ c ∧ c ≤ '9' then some (c.toNat - '0'.toNat)
    else if 'a' ≤ c ∧ c ≤ 'f' then some (c.toNat - 'a'.toNat + 10)
    else if 'A' ≤ c ∧ c ≤ 'F' then some (c.toNat - 'A'.toNat + 10)
    else none
  value?.filter (· < base)

/-- The value of a non-empty sequence of digits. -/
def digits? (base : Nat) : List Char → Option Nat
  | [] => none
  | cs => cs.foldlM (fun n c => (digit? base c).map (base * n + ·)) 0

/-- Reads a numeral below `bound`, which may carry a plus sign. -/
def natural? (base bound : Nat) (cs : List Char) : Option Nat :=
  let value? :=
    match cs with
    | '+' :: ds => digits? base ds
    | ds => digits? base ds
  value?.filter (· < bound)

/-- Reads a decimal numeral that may carry either sign and is a value of a signed word that has `bound`
values. -/
def integer? (bound : Nat) (cs : List Char) : Option Int :=
  let value? : Option Int :=
    match cs with
    | '-' :: ds => (digits? 10 ds).map fun n => -(n : Int)
    | '+' :: ds => (digits? 10 ds).map Int.ofNat
    | ds => (digits? 10 ds).map Int.ofNat
  value?.filter fun n => -bound ≤ 2 * n ∧ 2 * n < bound

example : natural? 16 256 ['+', '1', 'f'] = some 31 := by decide

example : integer? 256 ['-', '1', '2', '8'] = some (-128) := by decide

end DelaySynth.Text
