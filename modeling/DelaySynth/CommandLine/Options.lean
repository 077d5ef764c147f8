import DelaySynth.Build
import DelaySynth.CommandLine.Settings

/-!
# Options of a run

The settings of a command line as a whole: which of them must be there and which may be there twice,
their numbers and their defaults, and the request that they amount to.
-/

namespace DelaySynth.CommandLine

/-- What a command line asks for. -/
structure Options where
  /-- The shortest duration in cycles. -/
  min : Int
  /-- The longest duration in cycles, the shortest one if it is not given. -/
  max : Int := min
  /-- The largest number of instructions. -/
  budget : Nat := 10
  /-- The letters of the registers that may change. -/
  registers : String := ""
  /-- The addresses of the memory cells that may change. -/
  memory : List String := []
  /-- Whether the stack may be used. -/
  stack : Bool := false
  /-- The name of the processor. -/
  target : String := "8085"
  /-- The path of a catalog that replaces the one of the target. -/
  catalogPath? : Option String := none
  /-- Whether the routine ends with a return. -/
  includeReturn : Bool := true
  /-- Whether to tell what the search has done. -/
  showStats : Bool := false
  /-- The tunable values of the search. -/
  config : Config := {}
  /-- Whether to list the catalog instead of building a routine. -/
  listCatalog : Bool := false
deriving DecidableEq, Repr

/-- Tells whether no key is set twice, except for those that may be. -/
def Unambiguous (ss : List Setting) : Prop :=
  ((ss.map Setting.key).filter fun k => !k.repeatable).Nodup

instance (ss : List Setting) : Decidable (Unambiguous ss) :=
  inferInstanceAs (Decidable (List.Nodup _))

/-- Reads a signed number of 64 bits. -/
def signed? (value : String) : Option Int :=
  Text.integer? bound64 value.toList

/-- Reads a number from zero to the largest one of 32 bits. The sign of a zero may be minus. -/
def unsigned32? (value : String) : Option Nat :=
  ((signed? value).filter fun n : Int => 0 ≤ n ∧ n < bound32).map Int.toNat

/-- Reads a number from zero to the largest one of 64 bits, which carries no minus sign. -/
def unsigned64? (value : String) : Option Nat :=
  Text.natural? 10 bound64 value.toList

/-- The options after a setting, unless its value is refused. -/
def Options.set? (o : Options) (s : Setting) : Option Options :=
  match s.key with
  | .min => return { o with min := ← signed? s.value }
  | .max => return { o with max := ← signed? s.value }
  | .budget => return { o with budget := ← unsigned32? s.value }
  | .registers => return { o with registers := s.value }
  | .memory => return { o with memory := o.memory ++ [s.value] }
  | .stack => return { o with stack := true }
  | .target => return { o with target := s.value }
  | .catalog => if s.value.isEmpty then none else return { o with catalogPath? := some s.value }
  | .noReturn => return { o with includeReturn := false }
  | .stats => return { o with showStats := true }
  | .spillThreshold =>
    return { o with config := { o.config with spillThreshold := ← unsigned64? s.value } }
  | .budgetRetries =>
    return { o with config := { o.config with budgetRetries := ← unsigned32? s.value } }
  | .stepLimit =>
    return { o with config := { o.config with stepLimit := ← unsigned64? s.value } }
  | .listCatalog => return { o with listCatalog := true }

namespace Options

/-- The options that a list of settings amounts to. The shortest duration must be given. -/
def ofSettings? (ss : List Setting) : Option Options := do
  guard (Unambiguous ss)
  let shortest ← ss.find? fun s => s.key = .min
  let min ← signed? shortest.value
  ss.foldlM set? { min }

/-- The options that a command line gives, or nothing if it is not understood. -/
def ofArguments? (args : List String) : Option Options := do
  ofSettings? (← settings? (args.map String.toList))

/-- What the routine may touch: the registers, whose letters may be small and may be set apart by
blanks and commas, then the memory cells and then the stack. -/
def resources (o : Options) : List Resource :=
  let letters := o.registers.toList.filter fun c => !Text.isBlank c && c != ','
  letters.map (fun c => Resource.register (String.singleton c.toUpper)) ++
    o.memory.map Resource.memory ++ if o.stack then [Resource.stack] else []

/-- The request for a routine. -/
def request (o : Options) : Request where
  min := o.min
  max := o.max
  resources := o.resources
  budget := o.budget
  includeReturn := o.includeReturn

end Options

end DelaySynth.CommandLine
