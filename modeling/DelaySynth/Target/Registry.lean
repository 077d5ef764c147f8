import DelaySynth.SynthError
import DelaySynth.Target.I8085
import DelaySynth.Text.Blank

/-!
# Registries of targets

A registry holds targets in the order in which they were added. A target answers to its name and to
its aliases, as they are spelt, and a name that is asked for is first stripped of blanks and put into
small ASCII letters.
-/

namespace DelaySynth

/-- The targets that can be chosen. -/
structure Registry where
  /-- The targets, first added first. -/
  targets : List Target

namespace Registry

/-- The registry without targets. -/
def empty : Registry := ⟨[]⟩

/-- The registry of the targets that come with this library. -/
def builtin : Registry := ⟨[I8085.target]⟩

/-- The registry with one more target. -/
def add (g : Registry) (t : Target) : Registry := ⟨g.targets ++ [t]⟩

/-- The form of a name under which targets are looked up. -/
def normalName (name : String) : String :=
  String.ofList ((Text.trim name.toList).map Char.toLower)

/-- The first target that answers to a name. -/
def lookup (g : Registry) (name : String) : Except SynthError Target :=
  let wanted := normalName name
  match g.targets.find? fun t => t.id == wanted || t.aliases.contains wanted with
  | some t => .ok t
  | none => .error (.unknownTarget name)

/-- The names of the targets. -/
def ids (g : Registry) : List String := g.targets.map Target.id

end Registry

end DelaySynth
