import ItemBudget.Budget.Config
import ItemBudget.Decimal.Cost

/-!
# Budgets

The budget of an item lists the cost of every attribute that counts, sums them, and compares the sum
with the allowance of the item's rarity and class. An attribute costs its weight for each bound that
is text and the formula's value for each numeric one. Costs are rounded twice, each on its own and
then their sum. `budget` never fails: where the formula has no value the bound costs 0;
`checkedBudget` refuses a formula that is not valid.
-/

namespace ItemBudget

/-- How a cost compares with its allowance. -/
inductive Status where
  | under | at | over
deriving DecidableEq, Repr

/-- The name of a status. -/
def Status.name : Status → String
  | .under => "under"
  | .at => "at"
  | .over => "over"

/-- The exact comparison of a cost with an allowance; what does not compare is over. -/
def Status.classify (used allowed : Float) : Status :=
  if used < allowed then .under else if used == allowed then .at else .over

/-- The cost of one attribute. -/
structure AttributeCost where
  name : String
  cost : Float
deriving DecidableEq

/-- The budget of an item. -/
structure Breakdown where
  used : Float
  allowed : Float
  status : Status
  /-- The costs of the attributes that count, in order. -/
  costs : List AttributeCost
deriving DecidableEq

namespace Breakdown

/-- What is left of the allowance. -/
def remaining (b : Breakdown) : Float := round2 (b.allowed - b.used)

/-- The part of the allowance that is used; none when nothing is allowed. -/
def ratio (b : Breakdown) : Option Float :=
  if b.allowed == 0.0 then none else some (b.used / b.allowed)

/-- The cost is over the allowance. -/
def isOver (b : Breakdown) : Bool := b.status = .over

end Breakdown

/-- The sum of doubles from left to right. The empty sum is the neutral element of addition, which
is the negative zero. -/
def total (xs : List Float) : Float := xs.foldl (· + ·) (-0.0)

/-- What one bound adds to its attribute's cost. A numeric bound adds nothing when no formula was
read, and 0 when the formula has no value. -/
def boundCost (formula : Option Formula) (weight : Float) (b : Bound) : Option Float :=
  if b.kind.isNumeric then
    formula.map fun f =>
      (f.eval (Formula.Charge.mk weight (boundValue b.min) (boundValue b.max)).bindings).toOption.getD
        0.0
  else some weight

/-- The cost of an attribute, not rounded. -/
def attributeTotal (formula : Option Formula) (weights : WeightTable) (a : Attribute) : Float :=
  let weight := weights.weight a.name
  (a.bounds.filterMap (boundCost formula weight)).foldl (· + ·) 0.0

/-- The budget of an item under a formula that was read, or under none. -/
def budgetUnder (formula : Option Formula) (item : Item) (config : BudgetConfig) : Breakdown :=
  let costs := item.charged.map fun a =>
    AttributeCost.mk a.name (round2 (attributeTotal formula config.weights a))
  let used := round2 (total (costs.map (·.cost)))
  let allowed := AllowanceTable.allowed config.allowances item.rarity item.equipClass
  ⟨used, allowed, Status.classify used allowed, costs⟩

/-- The budget of an item. -/
def budget (item : Item) (config : BudgetConfig) : Breakdown :=
  budgetUnder (Formula.ofText? config.expression).toOption item config

/-- The budget of an item, or what is wrong with the formula. -/
def checkedBudget (item : Item) (config : BudgetConfig) : Except Formula.Fault Breakdown := do
  Formula.validate config.expression
  let f ← Formula.ofText? config.expression
  return budgetUnder (some f) item config

end ItemBudget
