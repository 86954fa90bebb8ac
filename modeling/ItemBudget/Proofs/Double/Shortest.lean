import ItemBudget.Decimal.Layout
import ItemBudget.Proofs.Double.Nearest

/-!
# The shortest digits read back

`shortest` looks for a decimal number in the interval of a double, on finer and finer grids. A point
that it finds lies in the interval (`mem_of_gridPoint?`); a grid with a step below a quarter unit
has a point (`gridPoint?_isSome`), and the search gets to such a grid (`ten_zpow_le`). So its answer
is read as the double it was made from: `toFloat_shortest`.
-/

namespace ItemBudget.Double

open Float.Model (UnpackedFloat)
open Decimal (Interval Tie)

/-! ## Grids -/

/-- The whole numbers that stand for the unit of an interval and the step of a grid are in the
proportion of the two. -/
theorem exists_measure (e p : ℤ) : ∃ c : ℚ, 0 < c ∧
    ((Nat.pow 2 e.toNat * Nat.pow 10 (-p).toNat : ℕ) : ℚ) = 2 ^ e * c ∧
    ((Nat.pow 2 (-e).toNat * Nat.pow 10 p.toNat : ℕ) : ℚ) = 10 ^ p * c := by
  have h2 : (2 : ℚ) ^ e * 2 ^ (-e).toNat = 2 ^ e.toNat := by
    rw [← zpow_natCast, ← zpow_natCast, ← two_zpow_add]
    congr 1; omega
  have h10 : (10 : ℚ) ^ p * 10 ^ (-p).toNat = 10 ^ p.toNat := by
    rw [← zpow_natCast, ← zpow_natCast, ← zpow_add₀ (by norm_num)]
    congr 1; omega
  refine ⟨2 ^ (-e).toNat * 10 ^ (-p).toNat, by positivity, ?_, ?_⟩
  · rw [← mul_assoc, h2]; simp only [Nat.pow_eq]; push_cast; rfl
  · rw [mul_left_comm, h10]; simp only [Nat.pow_eq]; push_cast; rfl

variable {i : Interval} {p : ℤ} {tie : Tie}

/-- A point of a grid is in the interval when its value is. -/
theorem holds_iff (d : ℕ) :
    i.holds (Nat.pow 2 i.exponent.toNat * Nat.pow 10 (-p).toNat)
        (Nat.pow 2 (-i.exponent).toNat * Nat.pow 10 p.toNat) d = true
      ↔ Mem i (d * 10 ^ p) := by
  obtain ⟨c, hc, hunit, hstep⟩ := exists_measure i.exponent p
  generalize Nat.pow 2 i.exponent.toNat * Nat.pow 10 (-p).toNat = unit at hunit ⊢
  generalize Nat.pow 2 (-i.exponent).toNat * Nat.pow 10 p.toNat = step at hstep ⊢
  have hle : ∀ x : ℕ, (x * unit ≤ d * step ↔ (x : ℚ) * 2 ^ i.exponent ≤ d * 10 ^ p) ∧
      (d * step ≤ x * unit ↔ (d : ℚ) * 10 ^ p ≤ x * 2 ^ i.exponent) := fun x => by
    rw [← Nat.cast_le (α := ℚ), ← Nat.cast_le (α := ℚ)]
    push_cast
    rw [hunit, hstep, ← mul_assoc, ← mul_assoc, mul_le_mul_iff_left₀ hc, mul_le_mul_iff_left₀ hc]
    exact ⟨Iff.rfl, Iff.rfl⟩
  have hlt : ∀ x : ℕ, (x * unit < d * step ↔ (x : ℚ) * 2 ^ i.exponent < d * 10 ^ p) ∧
      (d * step < x * unit ↔ (d : ℚ) * 10 ^ p < x * 2 ^ i.exponent) := fun x =>
    ⟨by simpa only [not_le] using (hle x).2.not, by simpa only [not_le] using (hle x).1.not⟩
  unfold Interval.holds Mem
  split
  · simp only [Bool.and_eq_true, decide_eq_true_eq, (hle _).1, (hle _).2]
  · simp only [Bool.and_eq_true, decide_eq_true_eq, (hlt _).1, (hlt _).2]

/-- What a grid gives lies in the interval. -/
theorem mem_of_gridPoint? {d : ℕ} (h : i.gridPoint? tie p = some d) : Mem i (d * 10 ^ p) := by
  rw [← holds_iff]
  unfold Interval.gridPoint? at h
  simp only at h
  split at h
  · cases h
  · next hb _ => cases h; exact hb
  · next _ ha => cases h; exact ha
  · next hb ha => cases tie <;> simp only at h <;> split_ifs at h <;> cases h <;> assumption

/-- A grid has a point when a neighbour of the center on it is in the interval. -/
theorem gridPoint?_isSome_of_holds {unit step : ℕ}
    (hunit : Nat.pow 2 i.exponent.toNat * Nat.pow 10 (-p).toNat = unit)
    (hstep : Nat.pow 2 (-i.exponent).toNat * Nat.pow 10 p.toNat = step)
    (h : i.holds unit step (i.center * unit / step) = true ∨
      i.holds unit step (i.center * unit / step + 1) = true) :
    (i.gridPoint? tie p).isSome = true := by
  unfold Interval.gridPoint?
  rw [hunit, hstep]
  cases hbelow : i.holds unit step (i.center * unit / step) with
  | false =>
    have habove := h.resolve_left (by rw [hbelow]; exact Bool.false_ne_true)
    simp only [hbelow, habove, Option.isSome_some]
  | true =>
    cases habove : i.holds unit step (i.center * unit / step + 1) with
    | false => simp only [hbelow, habove, Option.isSome_some]
    | true => cases tie <;> simp only [hbelow, habove] <;> split_ifs <;> rfl

/-- A grid that is no coarser than a quarter unit has a point in the interval: the one below the
center. -/
theorem gridPoint?_isSome (hl : i.low + 1 ≤ i.center) (hh : i.center < i.high)
    (hp : (10 : ℚ) ^ p ≤ 2 ^ i.exponent) : (i.gridPoint? tie p).isSome = true := by
  obtain ⟨c, hc, hunit, hstep⟩ := exists_measure i.exponent p
  generalize hu : Nat.pow 2 i.exponent.toNat * Nat.pow 10 (-p).toNat = unit at hunit
  generalize hs : Nat.pow 2 (-i.exponent).toNat * Nat.pow 10 p.toNat = step at hstep
  have hunit0 : 0 < unit := by subst hu; simp only [Nat.pow_eq]; positivity
  have hstep0 : 0 < step := by subst hs; simp only [Nat.pow_eq]; positivity
  have hle : step ≤ unit := by
    have : (step : ℚ) ≤ unit := by
      rw [hunit, hstep]; exact mul_le_mul_of_nonneg_right hp hc.le
    exact_mod_cast this
  refine gridPoint?_isSome_of_holds hu hs (.inl ?_)
  have hdiv := Nat.div_add_mod' (i.center * unit) step
  have hmod := Nat.mod_lt (i.center * unit) hstep0
  have hlow : i.low * unit + unit ≤ i.center * unit := by
    rw [← Nat.succ_mul]; exact Nat.mul_le_mul_right unit hl
  have hhigh : i.center * unit < i.high * unit := Nat.mul_lt_mul_of_pos_right hh hunit0
  unfold Interval.holds
  split <;> simp only [Bool.and_eq_true, decide_eq_true_eq] <;> omega

/-- The search ends on a point of the interval when one of its grids has one. -/
theorem mem_search {grids : ℕ} {k : ℕ} (hk : k < grids)
    (h : (i.gridPoint? tie (p - k)).isSome = true) : Mem i (value (i.search tie grids p)) := by
  induction grids generalizing p k with
  | zero => omega
  | succ grids ih =>
    unfold Interval.search
    split
    · next d hd => exact mem_of_gridPoint? hd
    · next hn =>
      obtain ⟨k, rfl⟩ : ∃ j, k = j + 1 :=
        ⟨k - 1, by rcases k with _ | k <;> simp_all⟩
      refine ih (Nat.lt_of_succ_lt_succ hk) ?_
      rwa [sub_sub, add_comm 1, ← Nat.cast_succ]

/-! ## The shortest digits -/

/-- The last grid of the search is fine enough. The digits of a power of two are estimated by
`30103 / 100000`, from above and from below by `10 / 33` and `3 / 10`. -/
theorem ten_zpow_le {q e : ℤ} (hl : -1074 ≤ q) (hu : q ≤ 971)
    (he : e ≤ (q + 53) * 30103 / 100000 - 21) : (10 : ℚ) ^ e ≤ 2 ^ (q - 2) := by
  rcases le_or_gt 2 q with h | h
  · have h10 : (10 : ℚ) ^ (e * 10) ≤ 2 ^ ((q - 2) * 10) := by
      calc (10 : ℚ) ^ (e * 10) ≤ 10 ^ (3 * (q - 2)) := zpow_le_zpow_right₀ (by norm_num) (by omega)
        _ = (10 ^ (3 : ℤ)) ^ (q - 2) := zpow_mul _ _ _
        _ ≤ (2 ^ (10 : ℤ)) ^ (q - 2) := zpow_le_zpow_left₀ (by omega) (by norm_num) (by norm_num)
        _ = 2 ^ ((q - 2) * 10) := by rw [← zpow_mul, mul_comm]
    rw [zpow_mul, zpow_mul] at h10
    exact (zpow_le_zpow_iff_left₀ (ten_zpow_pos e).le (two_zpow_pos _).le (by norm_num)).1 h10
  · have h33 : (10 : ℚ) ^ (e * 33) ≤ 2 ^ ((q - 2) * 33) := by
      calc (10 : ℚ) ^ (e * 33) ≤ 10 ^ (10 * (q - 2)) :=
            zpow_le_zpow_right₀ (by norm_num) (by omega)
        _ = (10 ^ (10 : ℤ)) ^ (q - 2) := zpow_mul _ _ _
        _ ≤ (2 ^ (33 : ℤ)) ^ (q - 2) :=
          zpow_le_zpow_of_nonpos (by norm_num) (by norm_num) (by omega)
        _ = 2 ^ ((q - 2) * 33) := by rw [← zpow_mul, mul_comm]
    rw [zpow_mul, zpow_mul] at h33
    exact (zpow_le_zpow_iff_left₀ (ten_zpow_pos e).le (two_zpow_pos _).le (by norm_num)).1 h33

/-- The grid where the search starts. -/
def firstGrid (m : ℕ) (q : ℤ) : ℤ := (q + m.log2 + 1) * 30103 / 100000 + 2

theorem low_le_center {m : ℕ} (q : ℤ) (hm : 0 < m) :
    (Decimal.interval m q).low + 1 ≤ (Decimal.interval m q).center := by
  simp only [Decimal.interval]
  split <;> omega

theorem center_lt_high (m : ℕ) (q : ℤ) :
    (Decimal.interval m q).center < (Decimal.interval m q).high := by
  simp only [Decimal.interval]
  omega

/-- The last grid of the search has a point. -/
theorem last_gridPoint? (tie : Tie) {m : ℕ} {q : ℤ} (h : Canonical m q) (hq : q ≤ maxExponent) :
    ((Decimal.interval m q).gridPoint? tie (firstGrid m q - (23 : ℕ))).isSome = true := by
  have hlog : m.log2 < 53 := (Nat.log2_lt h.pos.ne').2 h.lt
  refine gridPoint?_isSome (low_le_center q h.pos) (center_lt_high m q) (ten_zpow_le h.least hq ?_)
  unfold firstGrid
  push_cast
  omega

/-- The shortest digits are a point of the interval. -/
theorem mem_shortest (tie : Tie) {m : ℕ} {q : ℤ} (h : Canonical m q) (hq : q ≤ maxExponent) :
    Mem (Decimal.interval m q) (value (Decimal.shortest tie m q)) :=
  mem_search (by norm_num) (last_gridPoint? tie h hq)

theorem digits_pos_of_value {d : Decimal} (h : 0 < value d) : 0 < d.digits := by
  rcases Nat.eq_zero_or_pos d.digits with h0 | h0
  · rw [value, h0, Nat.cast_zero, zero_mul] at h
    exact absurd h (lt_irrefl 0)
  · exact h0

/-- **The shortest digits read back**, and so does any number of the same value. -/
theorem toFloat_eq_of_value {m : ℕ} {q : ℤ} (h : Canonical m q) (hq : q ≤ maxExponent) (tie : Tie)
    {d : Decimal} (hd : value d = value (Decimal.shortest tie m q)) :
    d.toFloat = ofUnpacked (.finite .positive m q h.pos) := by
  have hm := mem_shortest tie h hq
  rw [← hd] at hm
  rw [toFloat_eq_nearest (digits_pos_of_value (pos_of_mem h.pos hm))]
  exact congrArg ofUnpacked (rounded_of_mem .positive h hm)

end ItemBudget.Double
