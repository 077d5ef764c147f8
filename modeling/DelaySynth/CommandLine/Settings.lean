/-!
# Settings on a command line

A command line gives settings. A setting is a switch or an option with a value, and it is given by
its long name or by its letter:

    --budget 10   --budget=10   -b 10   -b10   -b=10   --stack   -s   -sb10

Letters may stand together behind one dash up to the first one that takes a value. A value in an
argument of its own must not look like a setting. Two dashes alone may close the line, and apart from
them there is nothing on it but settings.

`settings?` reads a whole line.
-/

namespace DelaySynth.CommandLine

/-- What can be set. -/
inductive Key where
  | min
  | max
  | budget
  | registers
  | memory
  | stack
  | target
  | catalog
  | noReturn
  | stats
  | spillThreshold
  | budgetRetries
  | stepLimit
  | listCatalog
deriving DecidableEq, Repr

namespace Key

/-- All keys. -/
def all : List Key :=
  [min, max, budget, registers, memory, stack, target, catalog, noReturn, stats, spillThreshold,
    budgetRetries, stepLimit, listCatalog]

theorem mem_all (k : Key) : k ∈ all := by cases k <;> decide

/-- The long name of a key. -/
def long : Key → String
  | min => "min"
  | max => "max"
  | budget => "budget"
  | registers => "registers"
  | memory => "memory"
  | stack => "stack"
  | target => "target"
  | catalog => "catalog"
  | noReturn => "no-return"
  | stats => "stats"
  | spillThreshold => "spill-threshold"
  | budgetRetries => "budget-retries"
  | stepLimit => "step-limit"
  | listCatalog => "list-catalog"

/-- The letter of a key. -/
def letter? : Key → Option Char
  | budget => some 'b'
  | registers => some 'r'
  | memory => some 'm'
  | stack => some 's'
  | target => some 't'
  | catalog => some 'c'
  | _ => none

/-- Tells whether the key takes a value; the others are switches. -/
def takesValue : Key → Bool
  | stack | noReturn | stats | listCatalog => false
  | _ => true

/-- Tells whether the key may be set more than once. -/
def repeatable : Key → Bool
  | memory => true
  | _ => false

/-- The key with a long name, which is never shortened. -/
def ofLong? (name : List Char) : Option Key :=
  all.find? fun k => k.long == String.ofList name

/-- The key with a letter. -/
def ofLetter? (c : Char) : Option Key :=
  all.find? fun k => k.letter? == some c

theorem ofLong?_long (k : Key) : ofLong? k.long.toList = some k := by
  cases k <;> decide +kernel

end Key

/-- A key with the value that is given for it, which is empty for a switch. -/
structure Setting where
  /-- What is set. -/
  key : Key
  /-- The value. -/
  value : String := ""
deriving DecidableEq, Repr

/-- What one argument gives: settings, and at the end possibly a key whose value is to follow. -/
structure Given where
  /-- The complete settings. -/
  settings : List Setting := []
  /-- The key that still needs its value. -/
  awaiting? : Option Key := none
deriving DecidableEq, Repr

/-- Reads a cluster of letters. The first key that takes a value takes the rest of the cluster, less
an equals sign in front of it, or the next argument if nothing is left. -/
def cluster? : List Char → Option Given
  | [] => some {}
  | c :: cs => do
    let key ← Key.ofLetter? c
    if key.takesValue then
      match cs with
      | [] => some { awaiting? := some key }
      | '=' :: value => some { settings := [⟨key, String.ofList value⟩] }
      | value => some { settings := [⟨key, String.ofList value⟩] }
    else
      let given ← cluster? cs
      some { given with settings := { key } :: given.settings }

/-- Reads a long name, and the value behind an equals sign. -/
def longName? (cs : List Char) : Option Given := do
  let key ← Key.ofLong? (cs.takeWhile (· != '='))
  match cs.dropWhile (· != '='), key.takesValue with
  | [], true => some { awaiting? := some key }
  | [], false => some { settings := [{ key }] }
  | _ :: value, true => some { settings := [⟨key, String.ofList value⟩] }
  | _ :: _, false => none

/-- Reads an argument that is not the value of the one before it. -/
def argument? : List Char → Option Given
  | '-' :: '-' :: cs => longName? cs
  | '-' :: c :: cs => cluster? (c :: cs)
  | _ => none

/-- Tells whether an argument starts with a dash that does not stand alone. -/
def looksLikeSetting : List Char → Bool
  | '-' :: _ :: _ => true
  | _ => false

/-- Reads the settings of a command line, in their order. -/
def settings? : List (List Char) → Option (List Setting)
  | [] => some []
  | [['-', '-']] => some []
  | arg :: args => do
    let given ← argument? arg
    match given.awaiting?, args with
    | none, args => return given.settings ++ (← settings? args)
    | some _, [] => none
    | some key, value :: args =>
      if looksLikeSetting value then none
      else return given.settings ++ ⟨key, String.ofList value⟩ :: (← settings? args)

example : settings? [['-', 's', 'b', '2']] = some [⟨.stack, ""⟩, ⟨.budget, "2"⟩] := by
  decide +kernel

end DelaySynth.CommandLine
