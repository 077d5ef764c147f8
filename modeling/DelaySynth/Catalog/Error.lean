/-!
# Faults of a catalog

Why a row of a written catalog is refused, and why a catalog cannot be read or does not answer a
question.
-/

namespace DelaySynth

/-- Why a row is malformed. -/
inductive RowFault where
  /-- The row does not have seven fields. -/
  | fieldCount (found : Nat)
  /-- The row has no template. -/
  | emptyTemplate
  /-- The duration is not a number of 64 bits. -/
  | invalidDuration (field : String)
  /-- The duration is zero. -/
  | zeroDuration (template : String)
  /-- The size is not a number of 32 bits. -/
  | invalidSize (field : String)
  /-- The count of memory cells is not zero, one or two, or the stack flag is not zero or one. -/
  | invalidResources (memory stack : String)
deriving DecidableEq, Repr

/-- The fault in words. -/
def RowFault.message : RowFault → String
  | fieldCount found => "expected 7 fields but found " ++ toString found
  | emptyTemplate => "empty instruction template"
  | invalidDuration field => "invalid duration '" ++ field ++ "'"
  | zeroDuration template => "instruction '" ++ template ++ "' has zero duration"
  | invalidSize field => "invalid size '" ++ field ++ "'"
  | invalidResources memory stack =>
    "invalid resource columns (memory '" ++ memory ++ "', stack '" ++ stack ++ "')"

/-- Why a catalog fails. -/
inductive CatalogError where
  /-- A row is malformed; lines are counted from one. -/
  | malformedRow (line : Nat) (reason : String)
  /-- No line opens the table. -/
  | missingBegin
  /-- The table has no rows. -/
  | noInstructions
  /-- No row has the template. -/
  | notFound (template : String)
  /-- The catalog file cannot be read. -/
  | unreadable (cause : String)
deriving DecidableEq, Repr

/-- The failure in words. -/
def CatalogError.message : CatalogError → String
  | malformedRow line reason => "Malformed catalog row at line " ++ toString line ++ ": " ++ reason
  | missingBegin => "Catalog has no BEGIN marker"
  | noInstructions => "Catalog contains no instructions"
  | notFound template => "Instruction not found in catalog: " ++ template
  | unreadable cause => "Failed to read catalog: " ++ cause

end DelaySynth
