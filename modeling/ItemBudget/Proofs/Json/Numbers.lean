import ItemBudget.Json.Number
import ItemBudget.Proofs.Double.Signed

/-!
# What numerals are read as

The digits of a numeral make a whole number, which is scaled by powers of ten: a rounding for the
number, one for each power and one for each scaling. A scaling down stays in range, and one that
leads out of it is no number, so every number is finite (`isFinite_of_number?`).
-/

namespace ItemBudget.Json

open Decimal (Numeral)
open Double
open Float.Model.UnpackedFloat (Sign)

variable {x y : Float} {v w : ℚ} {n e : ℕ}

/-! ## Whole numbers and powers of ten -/

theorem stands_toFloat (hn : n < 2 ^ 64) : Stands (UInt64.ofNat n).toFloat (near n) := by
  have hlt : (n : ℚ) < overflow := by
    calc (n : ℚ) < 2 ^ (64 : ℤ) := by exact_mod_cast hn
      _ ≤ 2 ^ (970 : ℤ) := zpow_le_zpow_right₀ one_le_two (by norm_num)
      _ ≤ overflow := le_mul_of_one_le_left (two_zpow_pos 970).le (by norm_num)
  rcases Nat.eq_zero_or_pos n with rfl | hpos
  · rw [Nat.cast_zero, near_zero]
    exact stands_zero
  · have heq : (UInt64.ofNat n).toFloat = nearest n := toFloat_toUInt64 hpos hn
    rw [heq]
    exact stands_nearest (Nat.cast_nonneg n) ((near_lt_iff (Nat.cast_nonneg n)).2 hlt)

theorem powerOfTen_eq (e : ℕ) : powerOfTen e = nearest (10 ^ e) := by
  have h := toFloat_eq_nearest (d := ⟨1, e⟩) one_pos
  rw [value, Nat.cast_one, one_mul, zpow_natCast] at h
  exact h

theorem ten_pow_lt_overflow (he : e ≤ 308) : (10 : ℚ) ^ e < overflow := by
  have hnat : ((10 ^ 308 : ℕ) : ℚ) < (((2 ^ 54 - 1) * 2 ^ 970 : ℕ) : ℚ) :=
    Nat.cast_lt.2 (by decide +kernel)
  calc (10 : ℚ) ^ e ≤ 10 ^ 308 := pow_le_pow_right₀ (by norm_num) he
    _ = ((10 ^ 308 : ℕ) : ℚ) := by rw [Nat.cast_pow, Nat.cast_ofNat]
    _ < (((2 ^ 54 - 1) * 2 ^ 970 : ℕ) : ℚ) := hnat
    _ = overflow := by
      rw [overflow, Nat.cast_mul, Nat.cast_pow, Nat.cast_ofNat, ← zpow_natCast]
      norm_num only

theorem stands_powerOfTen (he : e ≤ 308) : Stands (powerOfTen e) (near (10 ^ e)) := by
  have hpos : (0 : ℚ) ≤ 10 ^ e := by positivity
  rw [powerOfTen_eq]
  exact stands_nearest hpos ((near_lt_iff hpos).2 (ten_pow_lt_overflow he))

theorem one_le_near_ten (e : ℕ) : 1 ≤ near (10 ^ e) :=
  one_le_near (one_le_pow₀ (by norm_num))

/-! ## Scaling -/

theorem stands_div_powerOfTen (hx : Stands x v) (he : e ≤ 308) :
    Stands (x / powerOfTen e) (near (v / near (10 ^ e))) := by
  have hone := one_le_near_ten e
  have hpos : 0 ≤ v / near (10 ^ e) := div_nonneg hx.nonneg (near_nonneg _)
  have hlt : v < overflow := by
    rw [← hx.size_eq]
    exact size_lt x
  rw [hx.div (stands_powerOfTen he) (one_pos.trans_le hone)]
  exact stands_nearest hpos ((near_lt_iff hpos).2 ((div_le_self hx.nonneg hone).trans_lt hlt))

theorem exists_stands_scaleDown (hx : Stands x v) (e : ℕ) : ∃ w, Stands (scaleDown x e) w := by
  fun_induction scaleDown x e generalizing v with
  | case1 x e he => exact ⟨_, stands_div_powerOfTen hx he⟩
  | case2 x e _ _ => exact ⟨v, hx⟩
  | case3 x e _ _ ih =>
    exact ih (stands_div_powerOfTen hx le_rfl)

/-- A scaling up that gives a number gives the nearest one. -/
theorem stands_of_scaleUp? (hx : Stands x v) (he : e ≤ 308) (h : scaleUp? x e = some y) :
    Stands y (near (v * near (10 ^ e))) := by
  have hmul := hx.mul (stands_powerOfTen he)
  have hnonneg : 0 ≤ v * near (10 ^ e) := mul_nonneg hx.nonneg (near_nonneg _)
  unfold scaleUp? at h
  simp only [he, if_true] at h
  split_ifs at h with hinf
  cases h
  rcases lt_or_ge (near (v * near (10 ^ e))) (2 ^ (1024 : ℤ)) with hlt | hge
  · rw [hmul]
    exact stands_nearest hnonneg hlt
  · rw [hmul, nearest_of_overflow hnonneg hge] at hinf
    exact absurd rfl hinf

theorem isFinite_of_scaleUp? (hx : Stands x v) (h : scaleUp? x e = some y) :
    y.isFinite = true := by
  by_cases he : e ≤ 308
  · exact (stands_of_scaleUp? hx he h).isFinite
  · unfold scaleUp? at h
    rw [if_neg he] at h
    split_ifs at h
    cases h
    exact hx.isFinite

/-- A whole number scaled by a power of ten, as it is computed. -/
def scaled? (n : ℕ) (e : ℤ) : Option Float :=
  if 0 ≤ e then scaleUp? (UInt64.ofNat n).toFloat e.toNat
  else some (scaleDown (UInt64.ofNat n).toFloat (-e).toNat)

theorem isFinite_of_scaled? {e : ℤ} (hn : n < 2 ^ 64) (h : scaled? n e = some x) :
    x.isFinite = true := by
  unfold scaled? at h
  split_ifs at h
  · exact isFinite_of_scaleUp? (stands_toFloat hn) h
  · cases h
    obtain ⟨w, hw⟩ := exists_stands_scaleDown (stands_toFloat hn) (-e).toNat
    exact hw.isFinite

/-! ## Signs -/

theorem signed_of_zero {s : Sign} (hx : x.toModel.unpack = .zero s) :
    Decimal.signed (s == .negative) 0.0 = x := by
  rw [← ofUnpacked_unpack x, hx]
  cases s with
  | _ => rfl

section Finite

variable {s : Sign} {m : ℕ} {q : ℤ} {hm : 0 < m}

theorem unpack_neg (hx : x.toModel.unpack = .finite .positive m q hm) :
    (-x).toModel.unpack = .finite .negative m q hm := by
  obtain ⟨hc, hq⟩ := canonical_of_unpack hx
  rw [neg_eq_ofUnpacked, hx]
  exact unpack_ofUnpacked .negative hc hq

theorem unpack_signed (negative : Bool) (hx : x.toModel.unpack = .finite .positive m q hm) :
    ∃ s, (Decimal.signed negative x).toModel.unpack = .finite s m q hm := by
  cases negative with
  | false => exact ⟨.positive, hx⟩
  | true => exact ⟨.negative, unpack_neg hx⟩

theorem signed_of_finite (hx : x.toModel.unpack = .finite s m q hm) :
    Decimal.signed (s == .negative) (ofUnpacked (.finite .positive m q hm)) = x := by
  obtain ⟨hc, hq⟩ := canonical_of_unpack hx
  rw [← ofUnpacked_unpack x, hx]
  cases s with
  | positive => rfl
  | negative =>
    have hneg := unpack_neg (unpack_ofUnpacked .positive hc hq)
    rw [← hneg, ofUnpacked_unpack]
    rfl

end Finite

theorem toRat_signed (s : Sign) (hx : x.isFinite = true) :
    toRat (Decimal.signed (s == .negative) x) = signed s (toRat x) := by
  cases s with
  | positive => rfl
  | negative => exact (neg_finite hx).2

theorem isFinite_signed (negative : Bool) (hx : x.isFinite = true) :
    (Decimal.signed negative x).isFinite = true := by
  cases negative with
  | false => exact hx
  | true => exact (neg_finite hx).1

/-! ## Numerals -/

theorem fill_lt {significand : ℕ} (h : significand < 2 ^ 64) (cs : List Char) :
    (fill significand cs).1 < 2 ^ 64 := by
  induction cs generalizing significand with
  | nil => exact h
  | cons c cs ih =>
    simp only [fill]
    split_ifs with hnext
    · refine ih (lt_of_le_of_lt hnext ?_)
      decide
    · exact h

/-- The digits that fit the significand, those that do not, and the exponent. -/
theorem float?_eq (n : Numeral) :
    float? n = (scaled? (fill (fill 0 n.whole).1 n.fraction).1
      ((fill 0 n.whole).2.length
        - (n.fraction.length - (fill (fill 0 n.whole).1 n.fraction).2.length : ℕ)
        + n.exponent.getD 0)).map (Decimal.signed n.negative) := rfl

theorem isFinite_of_float? {n : Numeral} (h : float? n = some x) : x.isFinite = true := by
  rw [float?_eq, Option.map_eq_some_iff] at h
  obtain ⟨y, hy, rfl⟩ := h
  exact isFinite_signed _ (isFinite_of_scaled? (fill_lt (fill_lt (by norm_num) _) _) hy)

/-- **Every number is finite.** -/
theorem isFinite_of_number? {n : Numeral} {k : Number} (h : number? n = some k) :
    k.toFloat.isFinite = true := by
  unfold number? at h
  simp only [Bool.and_eq_true, decide_eq_true_eq] at h
  split_ifs at h with hnatural hnegative
  · cases h
    have hlt : Decimal.ofDigits n.whole < 2 ^ 64 := lt_of_le_of_lt hnatural.2 (by decide)
    exact (stands_toFloat hlt).isFinite
  · cases h
    have hlt : Decimal.ofDigits n.whole < 2 ^ 64 := lt_of_le_of_lt hnegative.2 (by decide)
    exact (neg_finite (stands_toFloat hlt).isFinite).1
  · obtain ⟨x, hx, rfl⟩ := Option.map_eq_some_iff.1 h
    exact isFinite_of_float? hx

end ItemBudget.Json
