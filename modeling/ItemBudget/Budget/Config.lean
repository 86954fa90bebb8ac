import ItemBudget.Formula.Basic
import ItemBudget.Item.Basic
import ItemBudget.Table

/-!
# Budget configurations

What a budget depends on besides the item: a formula, the weights of attribute names, and the
allowances of rarities and equipment classes. A missing weight or allowance is 0.
-/

namespace ItemBudget

/-- The weights of attributes by name. -/
abbrev WeightTable := Table Float

/-- The weight of an attribute. -/
def WeightTable.weight (t : WeightTable) (name : String) : Float := (t.get? name).getD 0.0

/-- The allowances by rarity, and in each by the name of an equipment class. -/
abbrev AllowanceTable := Table (Table Float)

namespace AllowanceTable

/-- The allowance of a rarity and a class name. -/
def get? (t : AllowanceTable) (rarity className : String) : Option Float :=
  (Table.get? t rarity).bind (Table.get? · className)

/-- The allowance of a rarity and a class. -/
def allowed (t : AllowanceTable) (rarity : String) (c : EquipClass) : Float :=
  (get? t rarity c.name).getD 0.0

/-- The table with an allowance for a rarity and a class name. -/
def set (t : AllowanceTable) (rarity className : String) (value : Float) : AllowanceTable :=
  t.insert rarity (((Table.get? t rarity).getD ∅).insert className value)

theorem get?_set (t : AllowanceTable) (r c : String) (x : Float) (r' c' : String) :
    get? (set t r c x) r' c' = if r' = r ∧ c' = c then some x else get? t r' c' := by
  unfold get? set
  rw [Table.get?_insert]
  by_cases hr : r' = r
  · subst hr
    rw [if_pos rfl, Option.bind_some, Table.get?_insert]
    by_cases hc : c' = c
    · rw [if_pos hc, if_pos ⟨rfl, hc⟩]
    · rw [if_neg hc, if_neg fun h => hc h.2]
      cases Table.get? t r' with
      | none => rfl
      | some row => rfl
  · rw [if_neg hr, if_neg fun h => hr h.1]

/-- Every rarity, class name and allowance, grouped by rarity. -/
def flatten (t : AllowanceTable) : List (String × String × Float) :=
  t.entries.flatMap fun r => r.2.entries.map (Prod.mk r.1)

/-- No rarity has an allowance. -/
def hasNone (t : AllowanceTable) : Bool := t.entries.all (·.2.isEmpty)

end AllowanceTable

/-- A budget configuration. -/
structure BudgetConfig where
  /-- A formula, or a name that stands for none. -/
  formula : String
  weights : WeightTable
  allowances : AllowanceTable
deriving DecidableEq

namespace BudgetConfig

/-- The configuration with a formula and empty tables. -/
def ofFormula (formula : String) : BudgetConfig := ⟨formula, ∅, ∅⟩

instance : Inhabited BudgetConfig := ⟨ofFormula Formula.defaultText⟩

/-- The configuration with one more weight. -/
def withWeight (c : BudgetConfig) (name : String) (weight : Float) : BudgetConfig :=
  { c with weights := c.weights.insert name weight }

/-- The configuration with one more allowance. -/
def withAllowance (c : BudgetConfig) (rarity className : String) (value : Float) : BudgetConfig :=
  { c with allowances := AllowanceTable.set c.allowances rarity className value }

theorem weight_withWeight (c : BudgetConfig) {name other : String} (weight : Float)
    (h : other ≠ name) :
    (c.withWeight name weight).weights.weight other = c.weights.weight other := by
  simp only [withWeight, WeightTable.weight]
  rw [Table.get?_insert, if_neg h]

theorem allowed_withAllowance (c : BudgetConfig) {rarity className rarity' : String}
    {k : EquipClass} (value : Float) (h : ¬(rarity' = rarity ∧ k.name = className)) :
    AllowanceTable.allowed (c.withAllowance rarity className value).allowances rarity' k =
      AllowanceTable.allowed c.allowances rarity' k := by
  simp only [withAllowance, AllowanceTable.allowed]
  rw [AllowanceTable.get?_set, if_neg h]

/-- The formula's text that is charged. -/
def expression (c : BudgetConfig) : String := Formula.resolved c.formula

end BudgetConfig

namespace Formula

variable {config : BudgetConfig} {source : String}

/-- What a configuration with an operator in its formula charges. -/
theorem expression_eq (hs : config.formula = source) (ho : hasOperator source = true) :
    config.expression = source := by
  unfold BudgetConfig.expression resolved
  rw [hs, if_pos ho]

theorem expression_eq_default (hs : config.formula = source) (ho : hasOperator source = false) :
    config.expression = defaultText := by
  unfold BudgetConfig.expression resolved
  rw [hs, ho, if_neg Bool.false_ne_true]

end Formula

end ItemBudget
