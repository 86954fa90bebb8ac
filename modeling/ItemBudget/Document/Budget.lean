import ItemBudget.Budget.Basic
import ItemBudget.Document.View
import ItemBudget.Json.Node

/-!
# Budgets and their configurations in documents
-/

namespace ItemBudget

open Json (Node)

variable {ν : Type} [Document ν]

/-- Reads weights. -/
def WeightTable.ofDocument? (n : ν) : Option WeightTable :=
  (Document.entriesOf? Document.number? n).map Table.ofList

/-- The node of weights. -/
def WeightTable.toJson (t : WeightTable) : Node :=
  .ofFields (t.entries.map fun e => (e.1, .ofFloat e.2))

/-- Reads allowances. -/
def AllowanceTable.ofDocument? (n : ν) : Option AllowanceTable :=
  (Document.entriesOf? WeightTable.ofDocument? n).map Table.ofList

/-- The node of allowances. -/
def AllowanceTable.toJson (t : AllowanceTable) : Node :=
  .ofFields (t.entries.map fun e => (e.1, WeightTable.toJson e.2))

/-- Reads a budget configuration. -/
def BudgetConfig.ofDocument? (n : ν) : Option BudgetConfig := do
  let f ← Document.record? "BudgetConfig" ["formula", "weights", "allowances"] n
  return {
    formula := ← f.orElse "formula" Formula.defaultText Document.text?
    weights := ← f.orElse "weights" ∅ WeightTable.ofDocument?
    allowances := ← f.orElse "allowances" ∅ AllowanceTable.ofDocument? }

/-- The node of a budget configuration. -/
def BudgetConfig.toJson (c : BudgetConfig) : Node :=
  .ofFields [("formula", .ofString c.formula), ("weights", WeightTable.toJson c.weights),
    ("allowances", AllowanceTable.toJson c.allowances)]

/-- The names of the statuses. -/
def Status.names : List (String × Status) := [("under", .under), ("at", .at), ("over", .over)]

/-- Reads a status. -/
def Status.ofDocument? (n : ν) : Option Status := Document.oneOf? names n

/-- The node of a status. -/
def Status.toJson (s : Status) : Node := .ofString s.name

/-- Reads the cost of an attribute. -/
def AttributeCost.ofDocument? (n : ν) : Option AttributeCost := do
  let f ← Document.record? "AttributeCost" ["name", "cost"] n
  return {
    name := ← f.required "name" Document.text?
    cost := ← f.required "cost" Document.number? }

/-- The node of the cost of an attribute. -/
def AttributeCost.toJson (c : AttributeCost) : Node :=
  .ofFields [("name", .ofString c.name), ("cost", .ofFloat c.cost)]

/-- Reads a budget. -/
def Breakdown.ofDocument? (n : ν) : Option Breakdown := do
  let f ← Document.record? "BudgetBreakdown" ["used", "allowed", "status", "breakdown"] n
  return {
    used := ← f.required "used" Document.number?
    allowed := ← f.required "allowed" Document.number?
    status := ← f.required "status" Status.ofDocument?
    costs := ← f.required "breakdown" (Document.listOf? AttributeCost.ofDocument?) }

/-- The node of a budget. -/
def Breakdown.toJson (b : Breakdown) : Node :=
  .ofFields [("used", .ofFloat b.used), ("allowed", .ofFloat b.allowed),
    ("status", b.status.toJson), ("breakdown", .array (b.costs.map AttributeCost.toJson))]

end ItemBudget
