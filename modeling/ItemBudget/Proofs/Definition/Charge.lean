import ItemBudget.Proofs.Budget.Prices
import ItemBudget.Proofs.Definition.Growth

/-!
# The formula in force

Definitions that were loaded charge the formula in force under its name when the formula's text has
an operator: the budget is made of the prices under that text. A text without one, although it is
valid and in the book, is charged as the default formula.
-/

namespace ItemBudget

theorem validate_defaultText : Formula.validate Formula.defaultText = .ok () := by
  decide +kernel

/-! ## The formula of definitions -/

namespace Definitions

/-- A formula in force under its name is resolved to its text. -/
theorem formula_budgetConfig {d : Definitions} {name : String} {f : NamedFormula}
    (hactive : d.activeFormula = some name) (hf : Table.get? d.formulas name = some f) :
    d.budgetConfig.formula = f.expression := by
  simp only [budgetConfig, hactive, Option.getD_some, FormulaBook.resolve, hf]
  rfl

/-- **What loaded definitions charge** for a formula in force under its name: the formula's text
when that has an operator, and the default formula when it has none. -/
theorem charges_active (calls : List Load) (name : String) (f : NamedFormula)
    (hactive : (loaded ∅ calls).activeFormula = some name)
    (hf : Table.get? (loaded ∅ calls).formulas name = some f) (item : Item) :
    let d := loaded ∅ calls
    (Formula.hasOperator f.expression = true →
      prices f.expression d.weights item = .ok (budget item d.budgetConfig).costs) ∧
    (Formula.hasOperator f.expression = false →
      prices Formula.defaultText d.weights item = .ok (budget item d.budgetConfig).costs) := by
  intro d
  have hformula : d.budgetConfig.formula = f.expression := formula_budgetConfig hactive hf
  obtain ⟨-, hvalid⟩ := valid_of_grows (grows_loaded ∅ calls) hf
  constructor
  · intro hop
    have hexpression := Formula.expression_eq hformula hop
    rw [← hexpression] at hvalid ⊢
    exact prices_eq_costs hvalid item
  · intro hop
    have hexpression := Formula.expression_eq_default hformula hop
    have hdefault := validate_defaultText
    rw [← hexpression] at hdefault ⊢
    exact prices_eq_costs hdefault item

/-- A formula under the name `flat`, in force, and a weight of 2. -/
def flatCalls (expression : String) : List Load :=
  [.text .formulas ("(formulas: [(name: \"flat\", expression: \"" ++ expression ++ "\")])"),
    .text .weights "(weights: \x7b \"A\": 2.0 \x7d)",
    .text .activeFormula "(active_formula: \"flat\")"]

/-- An item with one numeric bound, from 0 to 5. -/
def flatItem : Item := ⟨"Edge", "RARE", "Sword.IRON", [⟨.custom, "A", [⟨.double, "0", "5"⟩], false⟩]⟩

/-- The formula `weight + max` is charged for what it says. -/
theorem sum_charged :
    let d := loaded ∅ (flatCalls "weight + max")
    Table.get? d.formulas "flat" = some ⟨"flat", "weight + max", ""⟩ ∧
    prices "weight + max" d.weights flatItem = .ok (budget flatItem d.budgetConfig).costs ∧
    (budget flatItem d.budgetConfig).costs = [⟨"A", 7.0⟩] := by
  intro d
  have hf : Table.get? d.formulas "flat" = some ⟨"flat", "weight + max", ""⟩ := by decide +kernel
  have hcharged := charges_active (flatCalls "weight + max") "flat" _ (by decide +kernel) hf flatItem
  exact ⟨hf, hcharged.1 (by decide +kernel), by decide +kernel⟩

/-- The formula `max` would cost 5 here, and 10 is charged. -/
theorem bare_formula_not_charged :
    let d := loaded ∅ (flatCalls "max")
    d.activeFormula = some "flat" ∧ Table.get? d.formulas "flat" = some ⟨"flat", "max", ""⟩ ∧
    prices "max" d.weights flatItem = .ok [⟨"A", 5.0⟩] ∧
    (budget flatItem d.budgetConfig).costs = [⟨"A", 10.0⟩] := by
  decide +kernel

end Definitions

end ItemBudget
