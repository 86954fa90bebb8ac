import ItemBudget.Proofs.Budget.Finite
import ItemBudget.Proofs.Double.Sums

/-!
# Bounds in another order

The amounts of an attribute's bounds are added in their order, and the sum is rounded after each.
So the order of the bounds can change a cost by a hundredth, and with it the verdict
(`verdict_depends_on_bound_order`). It changes nothing for amounts that are `OrderFree`
(`budget_of_reordered`), and never the allowance or which attributes are charged.
-/

namespace ItemBudget

open Double (toRat nearSigned overflow running growth mass drift OrderFree)

/-- The same attribute with its bounds in another order. -/
structure Attribute.Reordered (a b : Attribute) : Prop where
  category : b.category = a.category
  name : b.name = a.name
  bypassed : b.bypassed = a.bypassed
  bounds : a.bounds.Perm b.bounds

/-- The same item with the bounds of each attribute in another order. -/
structure Item.Reordered (i j : Item) : Prop where
  name : j.name = i.name
  rarity : j.rarity = i.rarity
  equipment : j.equipment = i.equipment
  attributes : List.Forall₂ Attribute.Reordered i.attributes j.attributes

/-- The sum of the amounts of an attribute, and hundred times it, are in range in every order. -/
def BudgetConfig.InRange (config : BudgetConfig) (a : Attribute) : Prop :=
  (∀ x ∈ config.amounts a, x.isFinite = true) ∧
    growth ((config.amounts a).length + 1) * mass (config.amounts a) * 100 < overflow

variable {config : BudgetConfig} {item item' : Item} {a b : Attribute}

theorem Attribute.Reordered.amounts (h : a.Reordered b) (config : BudgetConfig) :
    (config.amounts a).Perm (config.amounts b) := by
  unfold BudgetConfig.amounts
  rw [h.name]
  exact h.bounds.filterMap _

theorem Item.Reordered.charged (h : item.Reordered item') :
    List.Forall₂ Attribute.Reordered item.charged item'.charged := by
  refine List.rel_filter (fun a b hab => ?_) h.attributes
  show (!a.bypassed) = true ↔ (!b.bypassed) = true
  rw [hab.bypassed]

theorem Item.Reordered.equipClass (h : item.Reordered item') :
    item'.equipClass = item.equipClass :=
  congrArg EquipClass.ofEquipment h.equipment

section Pairs

variable {α β γ : Type} {R : α → β → Prop} {xs : List α} {ys : List β}

theorem map_eq_of_forall₂ {f : α → γ} {g : β → γ}
    (h : List.Forall₂ (fun x y => g y = f x) xs ys) : ys.map g = xs.map f := by
  rw [← List.forall₂_eq_eq_eq]
  exact List.forall₂_map_left_iff.2 (List.forall₂_map_right_iff.2 h.flip)

theorem getElem?_of_forall₂ (h : List.Forall₂ R xs ys) {i : ℕ} {x : α} (hx : xs[i]? = some x) :
    ∃ y, ys[i]? = some y ∧ R x y := by
  induction h generalizing i with
  | nil => cases hx
  | cons hxy _ ih =>
    cases i with
    | zero =>
      cases hx
      exact ⟨_, rfl, hxy⟩
    | succ i => exact ih hx

end Pairs

/-! ## Costs -/

/-- What an attribute costs. -/
def BudgetConfig.costOf (config : BudgetConfig) (a : Attribute) : AttributeCost :=
  ⟨a.name, round2 (running (config.amounts a))⟩

theorem costs_eq_map (item : Item) (config : BudgetConfig) :
    (budget item config).costs = item.charged.map config.costOf := rfl

theorem costOf_of_reordered (h : a.Reordered b) (hfree : OrderFree (config.amounts a)) :
    config.costOf b = config.costOf a := by
  unfold BudgetConfig.costOf
  rw [h.name, hfree.round2_running (h.amounts config)]

/-- A budget is made of its costs and its allowance. -/
theorem budget_congr_costs (hcosts : (budget item' config).costs = (budget item config).costs)
    (hallowed : (budget item' config).allowed = (budget item config).allowed) :
    budget item' config = budget item config := by
  have hmade : ∀ i : Item, budget i config =
      ⟨round2 (total ((budget i config).costs.map (·.cost))), (budget i config).allowed,
        Status.classify (round2 (total ((budget i config).costs.map (·.cost))))
          (budget i config).allowed, (budget i config).costs⟩ := fun _ => rfl
  rw [hmade item', hmade item, hcosts, hallowed]

/-- **Budgets of items whose bounds are in another order.** The allowance and the attributes that
are charged are the same. An attribute with amounts that are `OrderFree` costs the same, and an item
with such attributes only has the same budget. In general two costs are whole numbers of hundredths
that differ by little more than the roundings of the sums. -/
theorem budget_of_reordered (item item' : Item) (config : BudgetConfig)
    (h : item.Reordered item') :
    (budget item' config).allowed = (budget item config).allowed ∧
    (budget item' config).costs.map (·.name) = (budget item config).costs.map (·.name) ∧
    (∀ (i : ℕ) a, item.charged[i]? = some a → OrderFree (config.amounts a) →
      (budget item' config).costs[i]? = (budget item config).costs[i]?) ∧
    (∀ (i : ℕ) a, item.charged[i]? = some a → config.InRange a →
      ∃ c c' : AttributeCost, (budget item config).costs[i]? = some c ∧
        (budget item' config).costs[i]? = some c' ∧
        ∃ j k : ℤ, toRat c.cost = nearSigned (j / 100) ∧ toRat c'.cost = nearSigned (k / 100) ∧
          |(j - k : ℚ)| < 1 + drift (config.amounts a) * 200) ∧
    ((∀ a ∈ item.charged, OrderFree (config.amounts a)) →
      budget item' config = budget item config) := by
  have hallowed : (budget item' config).allowed = (budget item config).allowed := by
    show AllowanceTable.allowed config.allowances item'.rarity item'.equipClass =
      AllowanceTable.allowed config.allowances item.rarity item.equipClass
    rw [h.rarity, h.equipClass]
  refine ⟨hallowed, ?_, fun i a ha hfree => ?_, fun i a ha hrange => ?_, fun hfree => ?_⟩
  · rw [costs_eq_map, costs_eq_map, List.map_map, List.map_map]
    exact map_eq_of_forall₂ (h.charged.imp fun _ _ hab => hab.name)
  · obtain ⟨b, hb, hab⟩ := getElem?_of_forall₂ h.charged ha
    rw [costs_eq_map, costs_eq_map, List.getElem?_map, List.getElem?_map, ha, hb]
    exact congrArg some (costOf_of_reordered hab hfree)
  · obtain ⟨b, hb, hab⟩ := getElem?_of_forall₂ h.charged ha
    refine ⟨config.costOf a, config.costOf b, ?_, ?_,
      Double.round2_running_close (hab.amounts config) hrange.1 hrange.2⟩
    · rw [costs_eq_map, List.getElem?_map, ha]
      rfl
    · rw [costs_eq_map, List.getElem?_map, hb]
      rfl
  · refine budget_congr_costs ?_ hallowed
    rw [costs_eq_map, costs_eq_map]
    exact map_eq_of_forall₂ (((List.forall₂_and_left _ _).2 ⟨hfree, h.charged⟩).imp
      fun _ _ hab => costOf_of_reordered hab.2 hab.1)

/-- Bounds of up to 0.1, 0.2 and 0.3 have different sums in two orders, and the same budget. -/
theorem budget_of_tenths :
    let config := (BudgetConfig.ofFormula "weight * max").withWeight "A" 1.0
    let itemOf : List String → Item := fun texts =>
      ⟨"Edge", "RARE", "Sword.IRON", [⟨.custom, "A", texts.map (Bound.mk .double "0"), false⟩]⟩
    let item := itemOf ["0.1", "0.2", "0.3"]
    let item' := itemOf ["0.3", "0.2", "0.1"]
    item.Reordered item' ∧ (∀ a ∈ item.charged, OrderFree (config.amounts a)) ∧
      item.charged.map (attributeTotal (Formula.ofText? config.expression).toOption config.weights) ≠
        item'.charged.map
          (attributeTotal (Formula.ofText? config.expression).toOption config.weights) ∧
      budget item' config = budget item config := by
  intro config itemOf item item'
  have hreordered : item.Reordered item' :=
    ⟨rfl, rfl, rfl, .cons ⟨rfl, rfl, rfl, (List.reverse_perm _).symm⟩ .nil⟩
  have hamounts : item.charged.map config.amounts = [[0.1, 0.2, 0.3]] := by decide +kernel
  have hfree : ∀ a ∈ item.charged, OrderFree (config.amounts a) := by
    intro a ha
    have hmem := List.mem_map_of_mem (f := config.amounts) ha
    rw [hamounts] at hmem
    rw [List.mem_singleton.1 hmem]
    exact .clear (by decide +kernel) (by decide +kernel)
  obtain ⟨-, -, -, -, hbudget⟩ := budget_of_reordered item item' config hreordered
  exact ⟨hreordered, hfree, by decide +kernel, hbudget hfree⟩

/-- Three bounds of at most 0.001, 0.004 and 0.03 are at an allowance of 0.03 in this order, and over
it in another. -/
theorem verdict_depends_on_bound_order :
    let config := ((BudgetConfig.ofFormula "weight * max").withWeight "A" 1.0).withAllowance
      "RARE" "Sword" 0.03
    let itemOf : List String → Item := fun texts =>
      ⟨"Edge", "RARE", "Sword.IRON", [⟨.custom, "A", texts.map (Bound.mk .double "0"), false⟩]⟩
    let item := itemOf ["0.001", "0.004", "0.03"]
    let item' := itemOf ["0.001", "0.03", "0.004"]
    item.Reordered item' ∧
      (budget item config).status = .at ∧ (budget item' config).status = .over ∧
      (budget item config).used = 0.03 ∧ (budget item' config).used = 0.04 := by
  refine ⟨⟨rfl, rfl, rfl, .cons ⟨rfl, rfl, rfl, (List.Perm.swap _ _ _).cons _⟩ .nil⟩, ?_⟩
  decide +kernel

end ItemBudget
