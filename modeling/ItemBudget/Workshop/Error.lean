import ItemBudget.Formula.Fault
import ItemBudget.Item.Basic
import ItemBudget.Time.Duration

/-!
# Errors of a workshop
-/

namespace ItemBudget

/-- Why a workshop refuses a call. -/
inductive Workshop.Error where
  /-- No item is stored under the number. -/
  | itemNotFound (id : ItemId)
  /-- The actor changed too much; the wait ends when the next change is let in. -/
  | rateLimited (actor : String) (wait : Option Time.Nanos)
  /-- The formula of a configuration is not valid. -/
  | invalidFormula (fault : Formula.Fault)
deriving DecidableEq, Repr

/-- The message of an error. -/
def Workshop.Error.message : Workshop.Error → String
  | .itemNotFound id => itemIdText id ++ " not found"
  | .rateLimited actor none => actor ++ " is rate limited"
  | .rateLimited actor (some wait) =>
    s!"{actor} is rate limited, retry in {Time.millis wait}ms"
  | .invalidFormula fault => "invalid formula: " ++ fault.message

end ItemBudget
