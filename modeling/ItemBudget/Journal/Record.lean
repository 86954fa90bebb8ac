import ItemBudget.Decimal.Cost
import ItemBudget.Item.Basic
import ItemBudget.Time.Instant

/-!
# Records

A change says who created, updated or deleted which item, with the item's cost before and after. A
record is a change with its number and its time.
-/

namespace ItemBudget.Journal

/-- What was done to an item. -/
inductive Action where
  | created | updated | deleted
deriving DecidableEq, Repr

/-- The name of an action in a sentence. -/
def Action.name : Action → String
  | .created => "created"
  | .updated => "updated"
  | .deleted => "deleted"

/-- A change of one item. -/
structure Change where
  item : ItemId
  action : Action
  actor : String
  /-- The cost before; an item that was created has none. -/
  before : Option Float
  /-- The cost after; an item that was deleted has none. -/
  after : Option Float
deriving DecidableEq

/-- The change of the cost; a side that is missing counts as 0. -/
def Change.delta (c : Change) : Float := round2 (c.after.getD 0.0 - c.before.getD 0.0)

/-- A change that was recorded. -/
structure Record extends Change where
  /-- The number of the record, from 1. -/
  seq : Nat
  time : Time.Instant
deriving DecidableEq

end ItemBudget.Journal
