import ItemBudget.Proofs.Budget.Prices

/-!
# Budgets by the rules

The rules for a budget go through the attributes and their bounds in order, and they read the
formula's text again for every numeric bound, where a text that cannot be read or evaluated costs 0.
A budget reads the text once and passes over numeric bounds when that fails. The two agree
(`budget_eq_rules`), because no sum on the way is the negative zero, the one double that adding 0
changes.
-/

namespace ItemBudget

namespace Rules

/-- What a bound adds to the cost of its attribute. -/
def boundCost (source : String) (weight : Float) (b : Bound) : Float :=
  match b.kind with
  | .string => weight
  | .double | .int =>
    match Formula.attributeCost source ⟨weight, boundValue b.min, boundValue b.max⟩ with
    | .ok x => x
    | .error _ => 0.0

/-- The cost of an attribute so far, with the bounds that are left. -/
def running (source : String) (weight cost : Float) : List Bound → Float
  | [] => cost
  | b :: bs => running source weight (cost + boundCost source weight b) bs

/-- The costs of the attributes that count, in order. -/
def costs (source : String) (weights : WeightTable) : List Attribute → List AttributeCost
  | [] => []
  | a :: as =>
    if a.bypassed then costs source weights as
    else
      let weight := (weights.get? a.name).getD 0.0
      ⟨a.name, round2 (running source weight 0.0 a.bounds)⟩ :: costs source weights as

/-- The sum of costs from left to right; without costs it is the neutral element of addition. -/
def sum : List AttributeCost → Float
  | [] => -0.0
  | c :: cs => cs.foldl (fun s c => s + c.cost) c.cost

/-- The budget of an item. -/
def budget (item : Item) (config : BudgetConfig) : Breakdown :=
  let costs := costs config.expression config.weights item.attributes
  let used := round2 (sum costs)
  let row := Table.get? config.allowances item.rarity
  let allowed := (row.bind (Table.get? · item.equipClass.name)).getD 0.0
  { used, allowed, costs
    status := if used < allowed then .under else if used == allowed then .at else .over }

variable {source : String} {weights : WeightTable}

theorem boundCost_eq (source : String) (weight : Float) :
    boundCost source weight = fun b => (boundPrice source weight b).toOption.getD 0.0 := by
  funext b
  have hcost (c : Formula.Charge) :
      (match Formula.attributeCost source c with | .ok x => x | .error _ => 0.0) =
        (Formula.attributeCost source c).toOption.getD 0.0 := by
    cases Formula.attributeCost source c <;> rfl
  unfold boundCost boundPrice
  cases b.kind with
  | string => rfl
  | double => exact hcost _
  | int => exact hcost _

theorem running_eq (weight cost : Float) (bs : List Bound) :
    running source weight cost bs = (bs.map (boundCost source weight)).foldl (· + ·) cost := by
  induction bs generalizing cost with
  | nil => rfl
  | cons b bs ih => exact ih (cost + boundCost source weight b)

theorem running_eq_total (a : Attribute) :
    running source (weights.weight a.name) 0.0 a.bounds =
      attributeTotal (Formula.ofText? source).toOption weights a := by
  rw [running_eq, boundCost_eq, attributeTotal_eq]

theorem costs_eq (as : List Attribute) :
    costs source weights as = (as.filter (!·.bypassed)).map fun a =>
      ⟨a.name, round2 (attributeTotal (Formula.ofText? source).toOption weights a)⟩ := by
  induction as with
  | nil => rfl
  | cons a as ih =>
    rw [costs, ih]
    cases ha : a.bypassed with
    | true => rw [List.filter_cons_of_neg (by rw [ha]; decide), if_pos rfl]
    | false =>
      rw [List.filter_cons_of_pos (by rw [ha]; rfl), List.map_cons, if_neg Bool.false_ne_true,
        ← running_eq_total]
      rfl

theorem sum_eq_total (cs : List AttributeCost) : sum cs = total (cs.map (·.cost)) := by
  unfold total
  cases cs with
  | nil => rfl
  | cons c cs => rw [List.map_cons, List.foldl_cons, Double.neg_zero_add, List.foldl_map, sum]

end Rules

/-- **A budget is the one that the rules give**, bit for bit, whatever the formula's text is. -/
theorem budget_eq_rules (item : Item) (config : BudgetConfig) :
    budget item config = Rules.budget item config := by
  unfold budget budgetUnder Rules.budget
  simp only [Rules.sum_eq_total, Rules.costs_eq]
  rfl

end ItemBudget
