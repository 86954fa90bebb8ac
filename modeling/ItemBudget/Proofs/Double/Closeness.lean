import ItemBudget.Proofs.Double.Nearby

/-!
# How far roundings lead

`Within a b v w` says that `w` is away from `v` by a part `a` of it and by `b` more, at most. One
rounding is a `roundoff` and half of the least unit away (`within_near`), what is close to something
close is close (`Within.trans`), and so is a quotient by what is close to one from one on
(`within_div_near`).
-/

namespace ItemBudget.Double

variable {a b c d v w z t : ℚ} {m : ℕ} {q : ℤ}

def Within (a b v w : ℚ) : Prop := |w - v| ≤ a * v + b

namespace Within

theorem self (v : ℚ) : Within 0 0 v v := by
  simp [Within]

theorem mono (h : Within a b v w) (hv : 0 ≤ v) (ha : a ≤ c) (hb : b ≤ d) : Within c d v w :=
  h.trans (add_le_add (mul_le_mul_of_nonneg_right ha hv) hb)

theorem trans (h : Within a b v w) (h' : Within c d w z) (hc : 0 ≤ c) :
    Within (a + c + c * a) (b + d + c * b) v z := by
  have hw : w ≤ v + (a * v + b) := by linarith [(abs_le.1 h).2]
  calc |z - v| = |z - w + (w - v)| := by ring_nf
    _ ≤ |z - w| + |w - v| := abs_add_le _ _
    _ ≤ c * w + d + (a * v + b) := add_le_add h' h
    _ ≤ c * (v + (a * v + b)) + d + (a * v + b) := by
      linarith [mul_le_mul_of_nonneg_left hw hc]
    _ = (a + c + c * a) * v + (b + d + c * b) := by ring

/-- What is scaled down comes no farther away. -/
theorem div (h : Within a b v w) (hb : 0 ≤ b) (ht : 1 ≤ t) : Within a b (v / t) (w / t) := by
  have hpos : 0 < t := one_pos.trans_le ht
  calc |w / t - v / t| = |w - v| / t := by rw [← sub_div, abs_div, abs_of_pos hpos]
    _ ≤ (a * v + b) / t := div_le_div_of_nonneg_right h hpos.le
    _ = a * (v / t) + b / t := by rw [add_div, mul_div_assoc]
    _ ≤ a * (v / t) + b := by linarith [div_le_self hb ht]

theorem mul_left (h : Within a 0 v w) (ht : 0 ≤ t) : Within a 0 (t * v) (t * w) := by
  calc |t * w - t * v| = t * |w - v| := by rw [← mul_sub, abs_mul, abs_of_nonneg ht]
    _ ≤ t * (a * v + 0) := mul_le_mul_of_nonneg_left h ht
    _ = a * (t * v) + 0 := by ring

theorem mul_right (h : Within a 0 v w) (ht : 0 ≤ t) : Within a 0 (v * t) (w * t) := by
  rw [mul_comm v, mul_comm w]
  exact h.mul_left ht

end Within

/-! ## One rounding -/

/-- Half of the least unit. -/
def halfUnit : ℚ := 2 ^ (-1075 : ℤ)

theorem halfUnit_pos : 0 < halfUnit := two_zpow_pos _

theorem two_mul_halfUnit : (2 : ℚ) ^ (-1074 : ℤ) = 2 * halfUnit := by
  have h := two_zpow_add 1 (-1075)
  rwa [zpow_one] at h

theorem eight_mul_halfUnit : (2 : ℚ) ^ (-1072 : ℤ) = 8 * halfUnit := by
  have h := two_zpow_add 3 (-1075)
  norm_num only at h
  exact h

theorem within_near (hv : 0 ≤ v) : Within roundoff halfUnit v (near v) := by
  have hu := mul_nonneg roundoff_pos.le hv
  have hh := halfUnit_pos
  by_cases hnormal : 2 ^ (-1022 : ℤ) ≤ v
  · have h := near_bounds (.inr hnormal)
    exact abs_le.2 ⟨by linarith [h.1], by linarith [h.2]⟩
  · have hsmall : (2 : ℚ) ^ (-1022 : ℤ) ≤ 2 ^ (-1074 + 53 : ℤ) :=
      zpow_le_zpow_right₀ one_le_two (by norm_num)
    have h := near_close le_rfl hv ((not_le.1 hnormal).trans_le hsmall)
    rw [two_mul_halfUnit, mul_div_cancel_left₀ _ two_ne_zero] at h
    exact abs_le.2 ⟨by linarith [h.1], by linarith [h.2]⟩

theorem within_near_of_one_le (hv : 1 ≤ v) : Within roundoff 0 v (near v) := by
  have hone : (2 : ℚ) ^ (-1022 : ℤ) ≤ 1 := zpow_le_one_of_nonpos₀ one_le_two (by norm_num)
  have h := near_bounds (.inr (hone.trans hv))
  exact abs_le.2 ⟨by linarith [h.1], by linarith [h.2]⟩

theorem within_near_natCast (n : ℕ) : Within roundoff 0 n (near n) := by
  rcases Nat.eq_zero_or_pos n with rfl | hn
  · rw [Nat.cast_zero, near_zero]
    exact (Within.self 0).mono le_rfl roundoff_pos.le le_rfl
  · exact within_near_of_one_le (by exact_mod_cast hn)

/-- A quotient by a rounded number is little more than a `roundoff` away. -/
theorem within_div_near (hv : 0 ≤ v) (ht : 1 ≤ t) :
    Within (9 / 8 * roundoff) 0 (v / t) (v / near t) := by
  have hnear := one_le_near ht
  have hclose := within_near_of_one_le ht
  have hpos : 0 < t := one_pos.trans_le ht
  have hs : 0 < near t := one_pos.trans_le hnear
  have hq : 0 ≤ v / t := div_nonneg hv hpos.le
  have hratio : roundoff * t ≤ 9 / 8 * roundoff * near t := by
    have hl := (abs_le.1 hclose).1
    unfold roundoff at *
    nlinarith
  have hdiff : v / near t - v / t = v / t * ((t - near t) / near t) := by
    field_simp
  have hpart : |(t - near t) / near t| ≤ 9 / 8 * roundoff := by
    rw [abs_div, abs_of_pos hs, div_le_iff₀ hs, abs_sub_comm]
    unfold Within at hclose
    linarith
  calc |v / near t - v / t| = v / t * |(t - near t) / near t| := by
        rw [hdiff, abs_mul, abs_of_nonneg hq]
    _ ≤ v / t * (9 / 8 * roundoff) := mul_le_mul_of_nonneg_left hpart hq
    _ = 9 / 8 * roundoff * (v / t) + 0 := by ring

/-! ## The interval of a double -/

section Intervals

variable (h : Canonical m q)
include h

theorem within_of_mem (hv : Mem (Decimal.interval m q) v) :
    Within roundoff halfUnit (m * 2 ^ q) v := by
  obtain ⟨hl, hu, -, -⟩ := mem_half h.pos hv
  have hpos : (0 : ℚ) ≤ m * 2 ^ q := mul_nonneg (Nat.cast_nonneg m) (two_zpow_pos q).le
  have hhalf : (2 : ℚ) ^ q / 2 ≤ roundoff * (m * 2 ^ q) + halfUnit := by
    rcases h.full with hfull | rfl
    · have hfull' : (2 : ℚ) ^ 52 ≤ m := by exact_mod_cast hfull
      have hmul := mul_le_mul_of_nonneg_right hfull' (two_zpow_pos q).le
      have hh := halfUnit_pos
      unfold roundoff
      linarith
    · linarith [two_mul_halfUnit, mul_nonneg roundoff_pos.le hpos]
  exact abs_le.2 ⟨by linarith, by linarith⟩

/-- Two numbers in the interval of a double are in proportion. -/
theorem le_three_mul (hv : Mem (Decimal.interval m q) v) (hw : Mem (Decimal.interval m q) w) :
    v ≤ 3 * w := by
  have hone : (1 : ℚ) ≤ m := by exact_mod_cast h.pos
  calc v ≤ (m + 1 / 2) * 2 ^ q := (mem_half h.pos hv).2.1
    _ ≤ 3 * (m - 1 / 2) * 2 ^ q :=
      mul_le_mul_of_nonneg_right (by linarith) (two_zpow_pos q).le
    _ = 3 * ((m - 1 / 2) * 2 ^ q) := mul_assoc _ _ _
    _ ≤ 3 * w := by linarith [(mem_half h.pos hw).1]

end Intervals

end ItemBudget.Double
