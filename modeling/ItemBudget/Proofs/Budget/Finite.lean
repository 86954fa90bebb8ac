import ItemBudget.Budget.Basic
import ItemBudget.Proofs.Double.Finite

/-!
# Finite budgets

With finite weights every bound adds a finite amount, because the value of a formula that is not
finite counts as 0. The sums of these amounts, and hundred times such a sum, can still leave the
range of doubles. A cost is finite exactly when its sum is `Roundable`, and so is the budget; for
items of ordinary size with amounts up to `2 ^ 970` all of them are (`finite_budget_iff`).
-/

namespace ItemBudget

open Double (size overflow)

/-- The double can be rounded to hundredths in the range of doubles. -/
def Roundable (x : Float) : Prop := x.isFinite = true ∧ size x * 100 < overflow

/-- What the bounds of an attribute add to its cost, in order. -/
def BudgetConfig.amounts (config : BudgetConfig) (a : Attribute) : List Float :=
  a.bounds.filterMap
    (boundCost (Formula.ofText? config.expression).toOption (config.weights.weight a.name))

variable {config : BudgetConfig} {item : Item} {a : Attribute} {n k : ℕ}

/-! ## Amounts -/

theorem isFinite_zero : (0.0 : Float).isFinite = true := Double.stands_zero.isFinite

/-- A formula has finite values only. -/
theorem Formula.isFinite_of_eval {f : Formula} {vars : Formula.Bindings} {x : Float}
    (h : f.eval vars = .ok x) : x.isFinite = true := by
  unfold Formula.eval at h
  split at h
  · cases h
    rfl
  · next e _ =>
    cases he : e.eval vars with
    | error fault =>
      rw [he] at h
      cases h
    | ok y =>
      rw [he] at h
      cases h
      split
      · assumption
      · rfl

theorem isFinite_boundCost {formula : Option Formula} {weight : Float} {b : Bound} {x : Float}
    (hw : weight.isFinite = true) (h : boundCost formula weight b = some x) :
    x.isFinite = true := by
  unfold boundCost at h
  split at h
  · obtain ⟨f, -, rfl⟩ := Option.map_eq_some_iff.1 h
    cases he : f.eval (Formula.Charge.mk weight (boundValue b.min) (boundValue b.max)).bindings with
    | error fault => exact isFinite_zero
    | ok x => exact Formula.isFinite_of_eval he
  · cases h
    exact hw

theorem isFinite_weight {weights : WeightTable}
    (hw : ∀ name w, weights.get? name = some w → w.isFinite = true) (name : String) :
    (weights.weight name).isFinite = true := by
  unfold WeightTable.weight
  cases h : weights.get? name with
  | none => rfl
  | some w => exact hw name w h

theorem isFinite_of_mem_amounts
    (hw : ∀ name w, config.weights.get? name = some w → w.isFinite = true) {x : Float}
    (hx : x ∈ config.amounts a) : x.isFinite = true := by
  obtain ⟨b, -, hb⟩ := List.mem_filterMap.1 hx
  exact isFinite_boundCost (isFinite_weight hw _) hb

/-! ## Costs -/

theorem isFinite_costs_iff :
    (∀ c ∈ (budget item config).costs, c.cost.isFinite = true) ↔
      ∀ a ∈ item.charged, Roundable ((config.amounts a).foldl (· + ·) 0.0) := by
  show (∀ c ∈ item.charged.map fun a => AttributeCost.mk a.name (round2 _), _) ↔ _
  rw [List.forall_mem_map]
  exact forall₂_congr fun a _ => Double.isFinite_round2_iff _

theorem isFinite_costs_of_used (h : (budget item config).used.isFinite = true) :
    ∀ c ∈ (budget item config).costs, c.cost.isFinite = true := by
  intro c hc
  have hsum := ((Double.isFinite_round2_iff _).1 h).1
  exact (Double.isFinite_of_foldl hsum).2 c.cost (List.mem_map_of_mem hc)

/-- A cost of `n` bounds with amounts up to a power of two is at most `n + 1` times that power. -/
theorem cost_bounds (hk : k ≤ 970) (hn : 100 * n + 2 ≤ 2 ^ 53) (hb : a.bounds.length ≤ n)
    (hx : ∀ x ∈ config.amounts a, x.isFinite = true ∧ size x ≤ 2 ^ k) :
    (round2 ((config.amounts a).foldl (· + ·) 0.0)).isFinite = true ∧
      size (round2 ((config.amounts a).foldl (· + ·) 0.0)) ≤ (n + 1 : ℕ) * 2 ^ k := by
  have hlength : (config.amounts a).length ≤ n := (List.length_filterMap_le _ _).trans hb
  have hzero : (0.0 : Float).isFinite = true ∧ size 0.0 ≤ (0 : ℕ) * 2 ^ k := by
    rw [Double.zero_eq]
    exact (Double.roundsTo_zero .positive).bounds (by norm_num) hk le_rfl (by simp)
  obtain ⟨hfinite, hsize⟩ := Double.foldl_bounds (n := 1) hk hzero
    (fun x hmem => by simpa using hx x hmem) (by omega)
  refine Double.round2_bounds hn hk hfinite (hsize.trans ?_)
  refine mul_le_mul_of_nonneg_right ?_ (by positivity)
  exact_mod_cast (by omega : 0 + (config.amounts a).length * 1 ≤ n)

/-- An item of ordinary size whose bounds add ordinary amounts has a finite budget. -/
theorem isFinite_used (hk : k ≤ 970) (hn : item.charged.length * (n + 1) ≤ 2 ^ 46)
    (hx : ∀ a ∈ item.charged, a.bounds.length ≤ n ∧
      ∀ x ∈ config.amounts a, x.isFinite = true ∧ size x ≤ 2 ^ k) :
    (budget item config).used.isFinite = true := by
  have hcosts : ∀ y ∈ ((budget item config).costs.map (·.cost)),
      y.isFinite = true ∧ size y ≤ (n + 1 : ℕ) * 2 ^ k := by
    intro y hy
    obtain ⟨c, hc, rfl⟩ := List.mem_map.1 hy
    obtain ⟨a, ha, rfl⟩ := List.mem_map.1 hc
    have hsmall : 1 * (n + 1) ≤ item.charged.length * (n + 1) :=
      Nat.mul_le_mul_right _ (List.length_pos_of_mem ha)
    exact cost_bounds hk (by omega) (hx a ha).1 (hx a ha).2
  have hlength : ((budget item config).costs.map (·.cost)).length = item.charged.length := by
    rw [List.length_map]
    exact List.length_map _
  have hzero : (-0.0 : Float).isFinite = true ∧ size (-0.0) ≤ (0 : ℕ) * 2 ^ k := by
    rw [Double.neg_zero_eq]
    exact (Double.roundsTo_zero .negative).bounds (by norm_num) hk le_rfl (by simp)
  obtain ⟨hfinite, hsize⟩ := Double.foldl_bounds hk hzero hcosts (by rw [hlength]; omega)
  rw [hlength, zero_add] at hsize
  exact (Double.round2_bounds (by omega) hk hfinite hsize).1

/-- **Finite weights give finite budgets** as far as doubles reach. Every bound adds a finite
amount; the costs are finite exactly when their sums of amounts are `Roundable`, and what is used
exactly when the sum of the costs is, and then the costs are finite too. That is so for every item
of up to `2 ^ 46` bounds and attributes whose amounts are at most `2 ^ 970` in size. -/
theorem finite_budget_iff (item : Item) (config : BudgetConfig)
    (hw : ∀ name w, config.weights.get? name = some w → w.isFinite = true) :
    (∀ a ∈ item.charged, ∀ x ∈ config.amounts a, x.isFinite = true) ∧
    ((∀ c ∈ (budget item config).costs, c.cost.isFinite = true) ↔
      ∀ a ∈ item.charged, Roundable ((config.amounts a).foldl (· + ·) 0.0)) ∧
    ((budget item config).used.isFinite = true ↔
      Roundable (total ((budget item config).costs.map (·.cost)))) ∧
    ((budget item config).used.isFinite = true →
      ∀ c ∈ (budget item config).costs, c.cost.isFinite = true) ∧
    ∀ n k : ℕ, k ≤ 970 → item.charged.length * (n + 1) ≤ 2 ^ 46 →
      (∀ a ∈ item.charged, a.bounds.length ≤ n ∧ ∀ x ∈ config.amounts a, size x ≤ 2 ^ k) →
      (budget item config).used.isFinite = true := by
  have hamounts : ∀ a ∈ item.charged, ∀ x ∈ config.amounts a, x.isFinite = true :=
    fun a _ x hx => isFinite_of_mem_amounts hw hx
  refine ⟨hamounts, isFinite_costs_iff, Double.isFinite_round2_iff _, isFinite_costs_of_used,
    fun n k hk hn hx => ?_⟩
  exact isFinite_used hk hn fun a ha =>
    ⟨(hx a ha).1, fun x hmem => ⟨hamounts a ha x hmem, (hx a ha).2 x hmem⟩⟩

/-- A bound up to 5 under a weight of 1 uses a finite part of the budget. -/
theorem finite_budget_of_five :
    let item : Item :=
      ⟨"Edge", "RARE", "Sword.IRON", [⟨.custom, "A", [⟨.double, "0", "5"⟩], false⟩]⟩
    let config := (BudgetConfig.ofFormula "weight * max").withWeight "A" 1.0
    (∀ name w, config.weights.get? name = some w → w.isFinite = true) ∧
    1 * (1 + 1) ≤ 2 ^ 46 ∧
    (budget item config).used.isFinite = true := by
  intro item config
  have hw : ∀ name w, config.weights.get? name = some w → w.isFinite = true := by
    intro name w h
    rw [show config.weights = (∅ : WeightTable).insert "A" 1.0 from rfl, Table.get?_insert] at h
    split at h
    · cases h
      rfl
    · cases h
  refine ⟨hw, by norm_num, ?_⟩
  obtain ⟨-, -, -, -, hfinite⟩ := finite_budget_iff item config hw
  have hamounts : item.charged.map config.amounts = [[Float.ofNat 5]] := by decide +kernel
  refine hfinite 1 3 (by norm_num) (by decide) fun a ha => ?_
  obtain rfl := List.mem_singleton.1 ha
  refine ⟨le_rfl, fun x hx => ?_⟩
  obtain rfl : x = Float.ofNat 5 :=
    List.mem_singleton.1 (List.singleton_injective hamounts ▸ hx)
  rw [(Double.stands_ofNat (by norm_num)).size_eq]
  norm_num

/-- A bound that uses exactly what is allowed, and is over the budget because hundred times it is
infinite. -/
theorem great_cost_is_infinite :
    let item : Item :=
      ⟨"Edge", "RARE", "Sword.IRON", [⟨.custom, "A", [⟨.double, "0", "1e307"⟩], false⟩]⟩
    let config := ((BudgetConfig.ofFormula "weight * max").withWeight "A" 1.0).withAllowance
      "RARE" "Sword" 1e307
    (config.weights.entries.all fun e => e.2.isFinite) = true ∧
    (config.allowances.flatten.all fun e => e.2.2.isFinite) = true ∧
    (budget item config).allowed.isFinite = true ∧
    (budget item config).costs.map (·.cost.isFinite) = [false] ∧
    (budget item config).used.isFinite = false ∧ (budget item config).status = .over := by
  decide +kernel

end ItemBudget
