import DelaySynth.Catalog.Error

/-!
# Failures of synthesis

A request that no routine satisfies is no failure: the answer to it is that there is none.
-/

namespace DelaySynth

/-- Why synthesis fails. -/
inductive SynthError where
  /-- The catalog lacks an instruction that the target needs. -/
  | incompatibleCatalog (cause : CatalogError)
  /-- The window is empty, or it lies below zero. -/
  | invalidWindow (min max : Int)
  /-- No target answers to the name. -/
  | unknownTarget (name : String)
  /-- The search has taken more steps than it may. -/
  | searchLimit (limit : Nat)
  /-- A finished routine lasts too long or not long enough. -/
  | timingMismatch (actual : Nat) (min max : Int)
deriving DecidableEq, Repr

/-- A window as it stands in a message. -/
def showWindow (min max : Int) : String :=
  "[" ++ toString min ++ ", " ++ toString max ++ "]"

/-- The failure in words. -/
def SynthError.message : SynthError → String
  | incompatibleCatalog cause => "Catalog is incompatible with the target: " ++ cause.message
  | invalidWindow min max => "Invalid cycle window " ++ showWindow min max
  | unknownTarget name => "Unknown target architecture: " ++ name
  | searchLimit limit => "Search step limit of " ++ toString limit ++ " exceeded"
  | timingMismatch actual min max =>
    "Synthesized routine lasts " ++ toString actual ++ " cycles, outside " ++ showWindow min max

end DelaySynth
