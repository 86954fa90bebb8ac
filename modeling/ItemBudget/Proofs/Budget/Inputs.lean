import ItemBudget.Proofs.Formula.Normal

/-!
# What a budget looks at

A budget looks at the rarity and the class of an item, at the attributes that count and at what its
configuration says of these (`SeenAlike`). Of an attribute it sees the name, and of each bound that
it is a text, or the two numbers of its range (`Bound.view`). Two items with two configurations that
are seen alike have one budget. So what is not seen can be edited: `Unseen` lists such edits.
-/

namespace ItemBudget

open Formula (Charge ofText?)

/-- What a budget sees of a bound. -/
inductive BoundView where
  | text
  | range (min max : Float)
deriving DecidableEq

/-- What a budget sees of an attribute. -/
structure AttributeView where
  name : String
  bounds : List BoundView
deriving DecidableEq

def Bound.view (b : Bound) : BoundView :=
  if b.kind.isNumeric then .range (boundValue b.min) (boundValue b.max) else .text

def Attribute.view (a : Attribute) : AttributeView := ⟨a.name, a.bounds.map Bound.view⟩

/-- What a budget sees of the attributes: those that count, in order. -/
def Item.view (i : Item) : List AttributeView := i.charged.map Attribute.view

/-- Two texts are read as equal formulas, or neither is read. -/
def readsAlike (source source' : String) : Bool :=
  match ofText? source, ofText? source' with
  | .ok f, .ok g => f.same g
  | .error _, .error _ => true
  | _, _ => false

/-- Two items with their configurations are the same in all that a budget looks at. -/
structure SeenAlike (i j : Item) (c d : BudgetConfig) : Prop where
  rarity : i.rarity = j.rarity
  equipClass : i.equipClass = j.equipClass
  attributes : i.view = j.view
  formula : readsAlike c.expression d.expression = true
  weights : ∀ a ∈ i.view, c.weights.weight a.name = d.weights.weight a.name
  allowance : AllowanceTable.allowed c.allowances i.rarity i.equipClass
    = AllowanceTable.allowed d.allowances i.rarity i.equipClass

variable {i j : Item} {c d : BudgetConfig}

/-! ## The cost of what is seen -/

/-- What a bound adds to the cost of its attribute, by what is seen of it. -/
def BoundView.cost (formula : Option Formula) (weight : Float) : BoundView → Option Float
  | .text => some weight
  | .range min max =>
    formula.map fun f => (f.eval (Charge.mk weight min max).bindings).toOption.getD 0.0

def AttributeView.cost (formula : Option Formula) (weights : WeightTable) (v : AttributeView) :
    AttributeCost :=
  let terms := v.bounds.filterMap (BoundView.cost formula (weights.weight v.name))
  ⟨v.name, round2 (terms.foldl (· + ·) 0.0)⟩

theorem boundCost_eq_view (formula : Option Formula) (weight : Float) :
    boundCost formula weight = BoundView.cost formula weight ∘ Bound.view := by
  funext b
  rw [Function.comp_apply, boundCost, Bound.view]
  split
  · rfl
  · rfl

/-- The budget with these costs. -/
def Breakdown.listing (costs : List AttributeCost) (allowed : Float) : Breakdown :=
  let used := round2 (total (costs.map (·.cost)))
  ⟨used, allowed, Status.classify used allowed, costs⟩

theorem budgetUnder_eq_listing (formula : Option Formula) (item : Item) (config : BudgetConfig) :
    budgetUnder formula item config =
      .listing (item.view.map (AttributeView.cost formula config.weights))
        (AllowanceTable.allowed config.allowances item.rarity item.equipClass) := by
  have hcost (a : Attribute) : AttributeView.cost formula config.weights a.view =
      ⟨a.name, round2 (attributeTotal formula config.weights a)⟩ := by
    rw [attributeTotal, boundCost_eq_view, ← List.filterMap_map]
    rfl
  simp only [Item.view, List.map_map, Function.comp_def, hcost]
  rfl

theorem toOption_eq_of_readsAlike {source source' : String} (h : readsAlike source source' = true) :
    (ofText? source).toOption = (ofText? source').toOption := by
  unfold readsAlike at h
  cases hf : ofText? source with
  | error e =>
    cases hg : ofText? source' with
    | error e' => rfl
    | ok g => rw [hf, hg] at h; cases h
  | ok f =>
    cases hg : ofText? source' with
    | error e' => rw [hf, hg] at h; cases h
    | ok g =>
      rw [hf, hg] at h
      rw [Formula.eq_of_same hf hg h]

theorem budget_eq_of_view (hrarity : i.rarity = j.rarity) (hclass : i.equipClass = j.equipClass)
    (hview : i.view = j.view)
    (hformula : (ofText? c.expression).toOption = (ofText? d.expression).toOption)
    (hweights : ∀ v ∈ i.view, c.weights.weight v.name = d.weights.weight v.name)
    (hallowance : AllowanceTable.allowed c.allowances i.rarity i.equipClass
      = AllowanceTable.allowed d.allowances i.rarity i.equipClass) :
    budget i c = budget j d := by
  rw [budget, budget, ← hformula, budgetUnder_eq_listing, budgetUnder_eq_listing, ← hview,
    hallowance, hrarity, hclass]
  congr 1
  apply List.map_congr_left
  intro v hv
  rw [AttributeView.cost, AttributeView.cost, hweights v hv]

/-! ## Edits -/

/-- An edit of an item or of a configuration that a budget does not see. -/
inductive Unseen (i : Item) (c : BudgetConfig) : Item → BudgetConfig → Prop
  | name (name : String) : Unseen i c { i with name } c
  | equipment {equipment : String} (h : EquipClass.ofEquipment equipment = i.equipClass) :
    Unseen i c { i with equipment } c
  | category {as bs : List Attribute} {a : Attribute} (category : Category)
    (h : i.attributes = as ++ a :: bs) :
    Unseen i c { i with attributes := as ++ { a with category } :: bs } c
  | bypassed {as bs : List Attribute} {a : Attribute} (ha : a.bypassed = true)
    (h : i.attributes = as ++ bs) :
    Unseen i c { i with attributes := as ++ a :: bs } c
  | text {as bs : List Attribute} {a : Attribute} {xs ys : List Bound} {b : Bound}
    (min max : String) (hb : b.kind = .string) (ha : a.bounds = xs ++ b :: ys)
    (h : i.attributes = as ++ a :: bs) :
    Unseen i c { i with
      attributes := as ++ { a with bounds := xs ++ { b with min, max } :: ys } :: bs } c
  | spelling {as bs : List Attribute} {a : Attribute} {xs ys : List Bound} {b : Bound}
    {min max : String} (hmin : boundValue min = boundValue b.min)
    (hmax : boundValue max = boundValue b.max) (ha : a.bounds = xs ++ b :: ys)
    (h : i.attributes = as ++ a :: bs) :
    Unseen i c { i with
      attributes := as ++ { a with bounds := xs ++ { b with min, max } :: ys } :: bs } c
  | weight {name : String} (weight : Float) (h : ∀ a ∈ i.charged, a.name ≠ name) :
    Unseen i c i (c.withWeight name weight)
  | allowance {rarity className : String} (value : Float)
    (h : rarity ≠ i.rarity ∨ className ≠ i.equipClass.name) :
    Unseen i c i (c.withAllowance rarity className value)

section Attributes

variable {as bs : List Attribute} {a b : Attribute}

theorem view_replace (h : i.attributes = as ++ a :: bs) (hbypassed : b.bypassed = a.bypassed)
    (hview : b.view = a.view) : Item.view { i with attributes := as ++ b :: bs } = i.view := by
  simp only [Item.view, Item.charged, h, List.filter_append, List.filter_cons, hbypassed,
    List.map_append]
  split
  · rw [List.map_cons, List.map_cons, hview]
  · rfl

theorem view_insert (h : i.attributes = as ++ bs) (ha : a.bypassed = true) :
    Item.view { i with attributes := as ++ a :: bs } = i.view := by
  simp [Item.view, Item.charged, h, ha]

theorem view_bounds {xs ys : List Bound} {x y : Bound} (h : a.bounds = xs ++ x :: ys)
    (hview : y.view = x.view) :
    Attribute.view { a with bounds := xs ++ y :: ys } = a.view := by
  simp only [Attribute.view, h, List.map_append, List.map_cons, hview]

end Attributes

theorem budget_eq_of_attributes {as : List Attribute}
    (h : Item.view { i with attributes := as } = i.view) :
    budget { i with attributes := as } c = budget i c :=
  budget_eq_of_view rfl rfl h rfl (fun _ _ => rfl) rfl

theorem budget_withWeight {name : String} (weight : Float) (h : ∀ a ∈ i.charged, a.name ≠ name) :
    budget i (c.withWeight name weight) = budget i c := by
  refine budget_eq_of_view rfl rfl rfl rfl ?_ rfl
  intro v hv
  obtain ⟨a, ha, rfl⟩ := List.mem_map.1 hv
  exact c.weight_withWeight weight (h a ha)

theorem budget_withAllowance {rarity className : String} (value : Float)
    (h : rarity ≠ i.rarity ∨ className ≠ i.equipClass.name) :
    budget i (c.withAllowance rarity className value) = budget i c := by
  refine budget_eq_of_view rfl rfl rfl rfl (fun _ _ => rfl) ?_
  apply c.allowed_withAllowance value
  rintro ⟨hr, hc⟩
  rcases h with h | h
  · exact h hr.symm
  · exact h hc.symm

theorem Unseen.budget_eq (h : Unseen i c j d) : budget j d = budget i c := by
  cases h with
  | name n => rfl
  | @equipment e h =>
    have hclass : Item.equipClass { i with equipment := e } = i.equipClass := h
    refine budget_eq_of_view rfl hclass rfl rfl (fun _ _ => rfl) ?_
    rw [hclass]
  | category k h => exact budget_eq_of_attributes (view_replace h rfl rfl)
  | bypassed ha h => exact budget_eq_of_attributes (view_insert h ha)
  | @text as bs a xs ys b min max hb ha h =>
    have hview : Bound.view { b with min, max } = b.view := by
      rw [Bound.view, Bound.view, hb]
      rfl
    exact budget_eq_of_attributes (view_replace h rfl (view_bounds ha hview))
  | @spelling as bs a xs ys b min max hmin hmax ha h =>
    have hview : Bound.view { b with min, max } = b.view := by
      rw [Bound.view, Bound.view, hmin, hmax]
    exact budget_eq_of_attributes (view_replace h rfl (view_bounds ha hview))
  | weight w h => exact budget_withWeight w h
  | allowance value h => exact budget_withAllowance value h

/-- **A budget has no other inputs**: what is seen alike has one budget, and so has what was edited
where no budget looks. -/
theorem budget_sees_only (i j : Item) (c d : BudgetConfig) :
    (SeenAlike i j c d → budget i c = budget j d) ∧ (Unseen i c j d → budget j d = budget i c) := by
  constructor
  · intro h
    exact budget_eq_of_view h.rarity h.equipClass h.attributes (toOption_eq_of_readsAlike h.formula)
      h.weights h.allowance
  · exact Unseen.budget_eq

/-- Two items that differ in their names, their spellings and in what does not count have one
budget, also under formulas that are spelled differently, and so has the first under a new weight
for what does not count. -/
theorem alike_in_two_spellings :
    let i : Item := ⟨"Edge", "RARE", "Sword.IRON",
      [⟨.custom, "A", [⟨.double, "0", "5"⟩, .ofText "glow"], false⟩,
        ⟨.vanilla, "B", [⟨.int, "1", "9"⟩], true⟩]⟩
    let j : Item := ⟨"Blade", "RARE", "Gadget",
      [⟨.vanilla, "A", [⟨.int, "-", " 5.0 "⟩, .ofText ""], false⟩]⟩
    let c : BudgetConfig :=
      ((BudgetConfig.ofFormula "weight * max").withWeight "A" 2.0).withAllowance "RARE" "Sword" 12.0
    let d : BudgetConfig := (((BudgetConfig.ofFormula "Weight*(MAX)").withWeight "B" 7.0).withWeight
      "A" 2.0).withAllowance "RARE" "Sword" 12.0
    (SeenAlike i j c d ∧ budget i c = budget j d) ∧
      (Unseen i c i (c.withWeight "B" 7.0) ∧ budget i (c.withWeight "B" 7.0) = budget i c) ∧
      (budget i c).used = 12.0 ∧ (budget i c).status = .at := by
  intro i j c d
  have hseen : SeenAlike i j c d :=
    ⟨rfl, by decide, by decide +kernel, by decide +kernel, by decide +kernel, by decide +kernel⟩
  have hunseen : Unseen i c i (c.withWeight "B" 7.0) := .weight 7.0 (by decide)
  exact ⟨⟨hseen, (budget_sees_only i j c d).1 hseen⟩,
    ⟨hunseen, (budget_sees_only i i c (c.withWeight "B" 7.0)).2 hunseen⟩,
    by decide +kernel, by decide +kernel⟩

end ItemBudget
