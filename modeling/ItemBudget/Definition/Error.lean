import ItemBudget.Formula.Basic

/-!
# What can be wrong with definitions

The causes for which a definition is refused. Files that cannot be read and texts that are no
document of their format carry no further detail.
-/

namespace ItemBudget

/-- The cause for which a definition is refused. -/
inductive DefinitionError where
  /-- A file or directory that cannot be read. -/
  | unreadable
  /-- A text that is not the expected RON document. -/
  | malformedRon
  /-- A text that is not the expected JSON document. -/
  | malformedJson
  /-- A document with an impossible value. -/
  | invalidSchema (reason : String)
  /-- A second definition of one thing. -/
  | duplicate (what : String)
  /-- A named formula that is not valid. -/
  | invalidFormula (name : String) (fault : Formula.Fault)
  /-- A name that stands for no formula. -/
  | unknownFormula (name : String)
deriving DecidableEq, Repr

/-- The text shown for an error; the first three have none. -/
def DefinitionError.message? : DefinitionError → Option String
  | .unreadable | .malformedRon | .malformedJson => none
  | .invalidSchema reason => some ("Invalid schema: " ++ reason)
  | .duplicate what => some ("Duplicate definition: " ++ what)
  | .invalidFormula name fault =>
    some ("Invalid formula '" ++ name ++ "': " ++ fault.message)
  | .unknownFormula name => some ("Unknown formula: " ++ name)

end ItemBudget
