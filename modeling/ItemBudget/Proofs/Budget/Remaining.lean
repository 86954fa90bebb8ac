import ItemBudget.Budget.Basic
import ItemBudget.Proofs.Double.Differences

/-!
# What remains of an allowance

A verdict compares what is used with what is allowed exactly, while what remains is their difference
in hundredths, a half up. So less than nothing remains exactly when the difference is below minus
half a hundredth, and an item that is over by less has nothing remaining. When the allowance is a
number of hundredths, as what is used always is, that cannot be: two such numbers are further apart
(`hundredth_gap`), and being over is the same as a negative remainder (`remaining_of_verdict`).
-/

namespace ItemBudget

open Double (toRat InHundredths)

variable {x y : Float}

/-! ## Verdicts -/

theorem classify_eq_over_iff (hx : x.isFinite = true) (hy : y.isFinite = true) :
    Status.classify x y = .over ↔ y < x := by
  rw [Double.lt_iff_toRat hy hx]
  unfold Status.classify
  split_ifs with h1 h2
  · rw [Double.lt_iff_toRat hx hy] at h1
    exact iff_of_false (by decide) h1.not_gt
  · rw [Double.beq_iff_toRat hx hy] at h2
    exact iff_of_false (by decide) h2.symm.not_lt
  · rw [Double.lt_iff_toRat hx hy, not_lt] at h1
    rw [Double.beq_iff_toRat hx hy] at h2
    exact iff_of_true rfl (lt_of_le_of_ne h1 (Ne.symm h2))

theorem classify_eq_at_iff (hx : x.isFinite = true) (hy : y.isFinite = true) :
    Status.classify x y = .at ↔ toRat x = toRat y := by
  unfold Status.classify
  split_ifs with h1 h2
  · rw [Double.lt_iff_toRat hx hy] at h1
    exact iff_of_false (by decide) h1.ne
  · exact iff_of_true rfl ((Double.beq_iff_toRat hx hy).1 h2)
  · exact iff_of_false (by decide) (mt (Double.beq_iff_toRat hx hy).2 h2)

variable {item : Item} {config : BudgetConfig}

theorem isOver_iff (hused : (budget item config).used.isFinite = true)
    (hallowed : (budget item config).allowed.isFinite = true) :
    (budget item config).isOver = true ↔
      (budget item config).allowed < (budget item config).used := by
  rw [← classify_eq_over_iff hused hallowed]
  exact decide_eq_true_iff

/-- **What remains and the verdict.** Less than nothing remains exactly when the allowance falls
short of what is used by more than half a hundredth; then the item is over. An item that is over has
no more than nothing remaining, and one at its allowance has nothing. When the allowance is in
hundredths, an item is over exactly when less than nothing remains. -/
theorem remaining_of_verdict (item : Item) (config : BudgetConfig)
    (hused : (budget item config).used.isFinite = true)
    (hallowed : (budget item config).allowed.isFinite = true) :
    let b := budget item config
    (b.remaining < 0.0 ↔ b.allowed - b.used < -0.005) ∧
    (b.remaining < 0.0 → b.isOver = true) ∧
    (b.isOver = true → b.remaining ≤ 0.0) ∧
    (b.status = .at → (b.remaining == 0.0) = true) ∧
    (InHundredths b.allowed → (b.isOver = true ↔ b.remaining < 0.0)) := by
  intro b
  have hneg : b.remaining < 0.0 ↔ b.allowed - b.used < -0.005 := Double.round2_lt_zero_iff _
  have hlt : b.isOver = true ↔ b.allowed < b.used := isOver_iff hused hallowed
  have hover : b.remaining < 0.0 → b.isOver = true := fun h =>
    hlt.2 (Double.lt_of_sub_lt hallowed hused (hneg.1 h))
  refine ⟨hneg, hover, fun h => Double.round2_sub_le_zero hallowed hused (hlt.1 h), fun h => ?_,
    fun h => ⟨fun ho => ?_, hover⟩⟩
  · have heq : toRat b.used = toRat b.allowed := (classify_eq_at_iff hused hallowed).1 h
    exact Double.round2_sub_self hallowed hused heq.symm
  · exact hneg.2 (Double.sub_lt_of_lt h (Double.inHundredths_round2 hused) (hlt.1 ho))

/-- An item over its allowance by one hundredth. -/
theorem remaining_minus_a_hundredth :
    let item : Item :=
      ⟨"Edge", "RARE", "Sword.IRON", [⟨.custom, "A", [⟨.double, "0", "10.3"⟩], false⟩]⟩
    let config := ((BudgetConfig.ofFormula "weight * max").withWeight "A" 1.0).withAllowance
      "RARE" "Sword" 10.29
    let b := budget item config
    b.used.isFinite = true ∧ b.allowed.isFinite = true ∧ InHundredths b.allowed ∧
      b.isOver = true ∧ b.remaining < 0.0 := by
  intro item config b
  have hused : b.used.isFinite = true := by decide +kernel
  have hallowed : b.allowed.isFinite = true := by decide +kernel
  have hover : b.isOver = true := by decide +kernel
  have hkept : round2 b.allowed = b.allowed := by decide +kernel
  have hcents : InHundredths b.allowed :=
    hkept ▸ Double.inHundredths_round2 (hkept.symm ▸ hallowed)
  obtain ⟨-, -, -, -, hverdict⟩ := remaining_of_verdict item config hused hallowed
  exact ⟨hused, hallowed, hcents, hover, (hverdict hcents).1 hover⟩

/-- An item that is over by less than half a hundredth, with nothing remaining. -/
theorem over_with_nothing_remaining :
    let item : Item :=
      ⟨"Edge", "RARE", "Sword.IRON", [⟨.custom, "A", [⟨.double, "0", "10.01"⟩], false⟩]⟩
    let config := ((BudgetConfig.ofFormula "weight * max").withWeight "A" 1.0).withAllowance
      "RARE" "Sword" 10.006
    let b := budget item config
    b.used.isFinite = true ∧ b.allowed.isFinite = true ∧ b.isOver = true ∧
      ¬b.remaining < 0.0 := by
  decide +kernel

end ItemBudget
