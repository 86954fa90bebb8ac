import ItemBudget.Proofs.Budget.Prices

/-!
# What validation says of budgets

A formula's text is checked once, with all six variables bound to 1. The verdict holds for every
charge: a valid text has a value, and another one fails with the fault that the check found. So the
checked budget is given exactly when the text is valid, and a budget under a text that is not valid
charges the texts among the bounds and nothing else (`validation_predicts_costs`).
-/

namespace ItemBudget

open Formula (Charge Fault attributeCost validate)

variable {source : String} {fault : Fault} {config : BudgetConfig}

theorem attributeCost_of_valid (h : validate source = .ok ()) (c : Charge) :
    ∃ x, attributeCost source c = .ok x := by
  cases hc : attributeCost source c with
  | ok x => exact ⟨x, rfl⟩
  | error fault =>
    rw [(Formula.attributeCost_eq_error_iff source c).1 hc] at h
    cases h

/-- What a bound adds to the cost of its attribute under a formula without a value. -/
def flatCost (weight : Float) (b : Bound) : Float := if b.kind.isNumeric then 0.0 else weight

theorem getD_boundPrice (h : validate source = .error fault) (weight : Float) (b : Bound) :
    (boundPrice source weight b).toOption.getD 0.0 = flatCost weight b := by
  unfold boundPrice flatCost
  split
  · rw [(Formula.attributeCost_eq_error_iff source _).2 h]
    rfl
  · rfl

theorem costs_of_invalid (h : validate config.expression = .error fault) (item : Item) :
    (budget item config).costs = item.charged.map fun a => ⟨a.name,
      round2 ((a.bounds.map (flatCost (config.weights.weight a.name))).foldl (· + ·) 0.0)⟩ := by
  unfold budget budgetUnder
  simp only [attributeTotal_eq, getD_boundPrice h]

theorem isOk_checkedBudget_iff (item : Item) (config : BudgetConfig) :
    (checkedBudget item config).isOk = true ↔ validate config.expression = .ok () := by
  rw [checkedBudget_eq, isOk_map]
  cases validate config.expression with
  | error fault => exact ⟨(nomatch ·), (nomatch ·)⟩
  | ok u => exact ⟨fun _ => rfl, fun _ => rfl⟩

/-- **The check of a formula's text predicts every charge** under it, and what budgets charge. -/
theorem validation_predicts_costs :
    (∀ source,
      (validate source = .ok () → ∀ c, ∃ x, attributeCost source c = .ok x) ∧
      ∀ fault, validate source = .error fault → ∀ c, attributeCost source c = .error fault) ∧
    ∀ (item : Item) (config : BudgetConfig),
      ((checkedBudget item config).isOk = true ↔ validate config.expression = .ok ()) ∧
      (validate config.expression = .ok () →
        checkedBudget item config = .ok (budget item config)) ∧
      ∀ fault, validate config.expression = .error fault →
        checkedBudget item config = .error fault ∧
        (budget item config).costs = item.charged.map fun a => ⟨a.name,
          round2 ((a.bounds.map (flatCost (config.weights.weight a.name))).foldl (· + ·) 0.0)⟩ := by
  refine ⟨fun source => ⟨attributeCost_of_valid, ?_⟩, fun item config => ⟨?_, ?_, ?_⟩⟩
  · intro fault h c
    exact (Formula.attributeCost_eq_error_iff source c).2 h
  · exact isOk_checkedBudget_iff item config
  · intro h
    exact checkedBudget_eq_ok h item
  · intro fault h
    refine ⟨?_, costs_of_invalid h item⟩
    rw [checkedBudget_eq, h]
    rfl

/-- Under a formula with an unknown variable an attribute costs its weight for its text, and nothing
for its range. -/
theorem unknown_variable_charges_texts :
    let config := (BudgetConfig.ofFormula "weight * level").withWeight "A" 2.5
    let item : Item := ⟨"Edge", "RARE", "Sword.IRON",
      [⟨.custom, "A", [⟨.double, "1", "5"⟩, .ofText "glow"], false⟩]⟩
    validate config.expression = .error (.unknownVariable "level") ∧
    (∀ c, attributeCost config.expression c = .error (.unknownVariable "level")) ∧
    checkedBudget item config = .error (.unknownVariable "level") ∧
    (budget item config).costs = [⟨"A", 2.5⟩] := by
  intro config item
  have hv : validate config.expression = .error (.unknownVariable "level") := by decide +kernel
  obtain ⟨hcharges, hbudgets⟩ := validation_predicts_costs
  have hbudget := (hbudgets item config).2.2 _ hv
  refine ⟨hv, (hcharges config.expression).2 _ hv, hbudget.1, ?_⟩
  rw [hbudget.2]
  decide +kernel

end ItemBudget
