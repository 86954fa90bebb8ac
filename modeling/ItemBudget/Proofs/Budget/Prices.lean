import ItemBudget.Budget.Basic
import ItemBudget.Proofs.Double.Zero
import ItemBudget.Proofs.Formula.Evaluation

/-!
# What a formula's text makes attributes cost

`prices` are the costs that an item's attributes have under the text of a formula; they fail where
the formula does. A budget charges what its bounds cost by their prices, and 0 for each bound that
has none (`attributeTotal_eq`), whether the text was read or not. So for a valid text the budget is
made of the prices (`prices_eq_costs`), and it is the checked one (`checkedBudget_eq`).
-/

namespace ItemBudget

open Formula (Charge Fault)

/-- What a bound adds to the cost of its attribute: the value of the formula for a numeric bound,
and the weight for a text. -/
def boundPrice (source : String) (weight : Float) (b : Bound) : Except Fault Float :=
  if b.kind.isNumeric then Formula.attributeCost source ⟨weight, boundValue b.min, boundValue b.max⟩
  else .ok weight

/-- The cost of an attribute under the text of a formula. -/
def attributePrice (source : String) (weights : WeightTable) (a : Attribute) :
    Except Fault AttributeCost := do
  let xs ← a.bounds.mapM (boundPrice source (weights.weight a.name))
  return ⟨a.name, round2 (xs.foldl (· + ·) 0.0)⟩

/-- The costs of an item's attributes under the text of a formula. -/
def prices (source : String) (weights : WeightTable) (item : Item) :
    Except Fault (List AttributeCost) :=
  item.charged.mapM (attributePrice source weights)

variable {source : String} {f : Formula}

/-! ## Bounds without a price -/

/-- A bound that is passed over adds as little as one that costs 0. -/
theorem attributeTotal_eq_sum (formula : Option Formula) (weights : WeightTable) (a : Attribute) :
    attributeTotal formula weights a =
      (a.bounds.map fun b => (boundCost formula (weights.weight a.name) b).getD 0.0).foldl
        (· + ·) 0.0 :=
  Double.sum_filterMap _ Double.zero_ne_neg_zero a.bounds

/-- A bound costs its price, and 0 when it has none. -/
theorem getD_boundCost (source : String) (weight : Float) (b : Bound) :
    (boundCost (Formula.ofText? source).toOption weight b).getD 0.0 =
      (boundPrice source weight b).toOption.getD 0.0 := by
  unfold boundCost boundPrice
  by_cases hb : b.kind.isNumeric = true
  · rw [if_pos hb, if_pos hb]
    cases h : Formula.ofText? source with
    | error e =>
      rw [Formula.attributeCost_eq_error h]
      rfl
    | ok f =>
      rw [Formula.attributeCost_eq h]
      rfl
  · rw [if_neg hb, if_neg hb]
    rfl

/-- An attribute costs the prices of its bounds, where a bound without a price counts as 0. -/
theorem attributeTotal_eq (source : String) (weights : WeightTable) (a : Attribute) :
    attributeTotal (Formula.ofText? source).toOption weights a =
      (a.bounds.map fun b => (boundPrice source (weights.weight a.name) b).toOption.getD 0.0).foldl
        (· + ·) 0.0 := by
  rw [attributeTotal_eq_sum]
  simp only [getD_boundCost]

/-! ## Valid texts -/

section Valid

variable (h : Formula.ofText? source = .ok f) (hok : ∀ c : Charge, (f.eval c.bindings).isOk = true)

include h hok

theorem boundPrice_eq (weight : Float) :
    boundPrice source weight = fun b => pure ((boundPrice source weight b).toOption.getD 0.0) := by
  funext b
  unfold boundPrice
  by_cases hb : b.kind.isNumeric = true
  · let c : Charge := ⟨weight, boundValue b.min, boundValue b.max⟩
    have hc := hok c
    rw [if_pos hb]
    show Formula.attributeCost source c = pure ((Formula.attributeCost source c).toOption.getD 0.0)
    rw [Formula.attributeCost_eq h]
    cases hx : f.eval c.bindings with
    | error e => rw [hx] at hc; cases hc
    | ok x => rfl
  · rw [if_neg hb]
    rfl

theorem attributePrice_eq (weights : WeightTable) :
    attributePrice source weights =
      fun a => pure ⟨a.name, round2 (attributeTotal (some f) weights a)⟩ := by
  have hread : (Formula.ofText? source).toOption = some f := by
    rw [h]
    rfl
  funext a
  rw [attributePrice, boundPrice_eq h hok, List.mapM_pure, ← hread, attributeTotal_eq]
  rfl

end Valid

variable {config : BudgetConfig}

/-- A budget charges the prices of its formula, when that is valid. -/
theorem prices_eq_costs (hv : Formula.validate config.expression = .ok ()) (item : Item) :
    prices config.expression config.weights item = .ok (budget item config).costs := by
  obtain ⟨f, hf, hok⟩ := Formula.reads_of_validate hv
  rw [prices, attributePrice_eq hf hok, List.mapM_pure, budget, hf]
  rfl

theorem checkedBudget_eq_ok (h : Formula.validate config.expression = .ok ()) (item : Item) :
    checkedBudget item config = .ok (budget item config) := by
  obtain ⟨f, hf, -⟩ := Formula.reads_of_validate h
  unfold checkedBudget budget
  rw [h, hf]
  rfl

/-- The checked budget is the budget, unless the formula is not valid. -/
theorem checkedBudget_eq (item : Item) (config : BudgetConfig) :
    checkedBudget item config =
      (Formula.validate config.expression).map fun _ => budget item config := by
  cases h : Formula.validate config.expression with
  | error fault =>
    unfold checkedBudget
    rw [h]
    rfl
  | ok u => exact checkedBudget_eq_ok h item

end ItemBudget
