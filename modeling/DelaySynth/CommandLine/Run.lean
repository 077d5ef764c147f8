import DelaySynth.Catalog.Table
import DelaySynth.Code.Listing
import DelaySynth.CommandLine.Options
import DelaySynth.Target.Registry

/-!
# Runs of the program

A run prints a routine and its measures, or a catalog, to the standard output. The statistics and
the reasons why nothing is printed go to the standard error. The exit code is 0 if something has been
printed, 2 if there is no such routine or the command line is not understood, and 1 after a failure.
-/

namespace DelaySynth.CommandLine

/-- What a run leaves behind. -/
structure Outcome where
  /-- The exit code. -/
  exitCode : Nat
  /-- The standard output. -/
  output : String := ""
  /-- The standard error. -/
  errors : String := ""
deriving DecidableEq, Repr

namespace Outcome

/-- A run that fails. -/
def failure (message : String) : Outcome where
  exitCode := 1
  errors := "Error: " ++ message ++ "\n"

/-- A run that prints a routine. -/
def routine (r : Routine Code) : Outcome where
  exitCode := 0
  output := r.render ++
    s!"; {r.duration} cycles, {r.length} instructions\n"

/-- A run that finds no routine. -/
def noRoutine (min max : Int) : Outcome where
  exitCode := 2
  errors := s!"No routine lasts between {min} and {max} cycles with the given resources\n"

/-- A run whose command line is not understood. -/
def usage : Outcome where
  exitCode := 2
  errors := "Usage: delaysynth --min CYCLES [--max CYCLES] [-b BUDGET] [-r REGISTERS] [-m ADDRESS]... " ++
    "[-s] [-t TARGET] [-c FILE] [--no-return] [--stats] [--spill-threshold N] " ++
    "[--budget-retries N] [--step-limit N] [--list-catalog]\n"

end Outcome

/-- The reason why a file that does not exist cannot be read. -/
def noSuchFile : String := "No such file or directory (os error 2)"

/-- The reason why a directory cannot be read as a file. -/
def isDirectory : String := "Is a directory (os error 21)"

/-- The reason why a file that others keep to themselves cannot be read. -/
def permissionDenied : String := "Permission denied (os error 13)"

/-- The catalog of a run: the one in the catalog file, if a file is named, and the target's own one
otherwise. The file gives its bytes, or the reason why it cannot be read. -/
def chosenCatalog (target : Target) : Option (Except String ByteArray) → Except CatalogError Catalog
  | none => .ok target.catalog
  | some (.ok bytes) => Catalog.ofBytes bytes
  | some (.error cause) => .error (.unreadable cause)

namespace Options

/-- A run on a target and a catalog. -/
def runOn (o : Options) (target : Target) (catalog : Catalog) : Outcome :=
  if o.listCatalog then { exitCode := 0, output := catalog.describe }
  else
    let synthesizer : Synthesizer := { machine := ⟨catalog, target⟩, config := o.config }
    match synthesizer.build o.request with
    | .error e => .failure e.message
    | .ok (routine?, stats) =>
      let outcome := routine?.elim (.noRoutine o.min o.max) .routine
      if o.showStats then { outcome with errors := toString stats ++ outcome.errors } else outcome

/-- The run that some options ask for, given what reading the catalog file that they name gives. -/
def run (o : Options) (file? : Option (Except String ByteArray)) : Outcome :=
  match Registry.builtin.lookup o.target with
  | .error e => .failure e.message
  | .ok target =>
    match chosenCatalog target file? with
    | .error e => .failure e.message
    | .ok catalog => o.runOn target catalog

end Options

end DelaySynth.CommandLine
