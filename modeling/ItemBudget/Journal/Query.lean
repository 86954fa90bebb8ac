import ItemBudget.Budget.Basic
import ItemBudget.Decimal.Binary
import ItemBudget.Journal.History

/-!
# Questions to a history

A query selects records by number, item, actor and action; a criterion that is missing admits all.
`largestIncreases` lists the records that raised a cost the most, and `summary` sums up the records
of one item.
-/

namespace ItemBudget.Journal

/-- Criteria for records. -/
structure Query where
  /-- The smallest number that is selected. -/
  first : Option Nat
  /-- The largest number that is selected. -/
  last : Option Nat
  item : Option ItemId
  actor : Option String
  action : Option Action
deriving DecidableEq, Repr

/-- The query without a criterion, which selects every record. -/
def Query.any : Query := ⟨none, none, none, none, none⟩

/-- The record meets every criterion of the query. -/
def Query.selects (q : Query) (r : Record) : Bool :=
  q.first.all (· ≤ r.seq) && q.last.all (r.seq ≤ ·) && q.item.all (· = r.item)
    && q.actor.all (· = r.actor) && q.action.all (· = r.action)

/-- What the kept records say of one item. -/
structure Summary where
  item : ItemId
  /-- How many records the item has. -/
  changes : Nat
  /-- The sum of the changes of the cost. -/
  net : Float
  /-- The cost after the latest record. -/
  current : Option Float
  /-- The latest record is a deletion. -/
  deleted : Bool
deriving DecidableEq

namespace History

/-- The records that a query selects, oldest first. -/
def query (h : History) (q : Query) : List Record := h.records.filter q.selects

/-- The records that raised a cost, oldest first. -/
def increases (h : History) : List Record := h.records.filter fun r => 0.0 < r.delta

/-- The records that raised a cost, the largest increase first. Equal ones keep their order. -/
def rankedIncreases (h : History) : List Record :=
  h.increases.mergeSort fun a b => Decimal.rank b.delta ≤ Decimal.rank a.delta

/-- The `n` records that raised a cost the most. -/
def largestIncreases (h : History) (n : Nat) : List Record := h.rankedIncreases.take n

/-- What the history says of an item. -/
def summary (h : History) (item : ItemId) : Summary where
  item := item
  changes := (h.recordsFor item).length
  net := round2 (total ((h.recordsFor item).map (·.delta)))
  current := (h.latestFor? item).bind (·.after)
  deleted := (h.latestFor? item).any (·.action = .deleted)

end History

end ItemBudget.Journal
