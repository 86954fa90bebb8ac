import ItemBudget.Proofs.Double.Closeness
import ItemBudget.Proofs.Double.Finite
import ItemBudget.Proofs.Json.Numerals

/-!
# How doubles are read back

The digits of a double are those of the nearest short decimal number, but they are read as a whole
number and scaled by a power of ten, with a rounding for each. So a double that is written and read
is close to what it was (`exists_reread`), and the same when its digits and the power of ten are
exact (`reread_short`).
-/

namespace ItemBudget.Json

open Double
open Float.Model.UnpackedFloat (Sign)

variable {v w : ℚ} {n e : ℕ} {x y : Float} {d : Decimal}

/-! ## Scaling -/

theorem value_nonneg (d : Decimal) : 0 ≤ value d :=
  mul_nonneg (Nat.cast_nonneg _) (ten_zpow_pos _).le

theorem value_of_nonneg (h : 0 ≤ d.exponent) : value d = d.digits * 10 ^ d.exponent.toNat := by
  rw [value, ← zpow_natCast, Int.toNat_of_nonneg h]

theorem value_of_neg (h : d.exponent < 0) : value d = d.digits / 10 ^ (-d.exponent).toNat := by
  rw [value, ← zpow_natCast, Int.toNat_of_nonneg (by omega), zpow_neg, div_inv_eq_mul]

theorem stands_digits (h : d.digits ≤ maxSignificand) :
    Stands (UInt64.ofNat d.digits).toFloat (near d.digits) :=
  stands_toFloat (Nat.lt_of_le_of_lt h (by decide))

theorem within_div_powerOfTen (hv : 0 ≤ v) (e : ℕ) :
    Within (5 / 2 * roundoff) halfUnit (v / 10 ^ e) (near (v / near (10 ^ e))) := by
  have hu := roundoff_pos
  have hquot : 0 ≤ v / near (10 ^ e) := div_nonneg hv (near_nonneg _)
  have hten := within_div_near hv (t := 10 ^ e) (one_le_pow₀ (by norm_num))
  refine (hten.trans (within_near hquot) hu.le).mono (div_nonneg hv (by positivity)) ?_ ?_
  · unfold roundoff
    norm_num
  · linarith

theorem within_scaleDown (hx : Stands x v) (he : e ≤ 616) : ∃ w, Stands (scaleDown x e) w ∧
    Within (21 / 4 * roundoff) (3 * halfUnit) (v / 10 ^ e) w := by
  have hu := roundoff_pos
  have hh := halfUnit_pos
  have hquot : 0 ≤ v / 10 ^ e := div_nonneg hx.nonneg (by positivity)
  rw [scaleDown]
  split_ifs with hfew hzero
  · refine ⟨_, stands_div_powerOfTen hx hfew, ?_⟩
    exact (within_div_powerOfTen hx.nonneg e).mono hquot (by linarith) (by linarith)
  · have hv0 : v = 0 := by
      rw [← hx.toRat_eq, (beq_iff_toRat hx.isFinite stands_zero.isFinite).1 hzero,
        stands_zero.toRat_eq]
    refine ⟨v, hx, ?_⟩
    rw [hv0, zero_div]
    exact (Within.self 0).mono le_rfl (by linarith) (by linarith)
  · -- the second step is short, so two steps are enough
    have hfirst := stands_div_powerOfTen hx le_rfl
    have hpower : (10 : ℚ) ^ 308 * 10 ^ (e - 308) = 10 ^ e := by
      rw [← pow_add, Nat.add_sub_cancel' (not_le.1 hfew).le]
    have hrest := (within_div_powerOfTen hx.nonneg 308).div hh.le (t := 10 ^ (e - 308))
      (one_le_pow₀ (by norm_num))
    rw [div_div, hpower] at hrest
    have hsmall : 5 / 2 * roundoff ≤ 1 := by
      unfold roundoff
      norm_num
    rw [scaleDown, if_pos (by omega)]
    refine ⟨_, stands_div_powerOfTen hfirst (by omega), ?_⟩
    refine (hrest.trans (within_div_powerOfTen hfirst.nonneg _) (by linarith)).mono hquot ?_ ?_
    · unfold roundoff
      norm_num
    · nlinarith

theorem within_scaleUp? (hx : Stands x v) (he : e ≤ 308) (h : scaleUp? x e = some y) :
    ∃ w, Stands y w ∧ Within (21 / 4 * roundoff) (3 * halfUnit) (v * 10 ^ e) w := by
  have hu := roundoff_pos
  have hh := halfUnit_pos
  have hprod : 0 ≤ v * near (10 ^ e) := mul_nonneg hx.nonneg (near_nonneg _)
  have hten := (within_near_of_one_le (v := 10 ^ e) (one_le_pow₀ (by norm_num))).mul_left hx.nonneg
  refine ⟨_, stands_of_scaleUp? hx he h, ?_⟩
  refine (hten.trans (within_near hprod) hu.le).mono (mul_nonneg hx.nonneg (by positivity)) ?_ ?_
  · unfold roundoff
    norm_num
  · linarith

/-- What is read of digits and an exponent is close to the number that they write. -/
theorem within_scaled? (hdigits : d.digits ≤ maxSignificand) (hl : -616 ≤ d.exponent)
    (hu : d.exponent ≤ 308) (h : scaled? d.digits d.exponent = some x) :
    ∃ w, Stands x w ∧ Within (13 / 2 * roundoff) (3 * halfUnit) (value d) w := by
  have hr := roundoff_pos
  have hsum : roundoff + 21 / 4 * roundoff + 21 / 4 * roundoff * roundoff ≤ 13 / 2 * roundoff := by
    unfold roundoff
    norm_num
  have hstands := stands_digits hdigits
  have hnear := within_near_natCast d.digits
  have hpos := value_nonneg d
  unfold scaled? at h
  split_ifs at h with hsign
  · rw [value_of_nonneg hsign] at hpos ⊢
    obtain ⟨w, hw, hclose⟩ := within_scaleUp? hstands (by omega) h
    have hdigits := hnear.mul_right (t := 10 ^ d.exponent.toNat) (by positivity)
    exact ⟨w, hw, (hdigits.trans hclose (by linarith)).mono hpos hsum (by linarith)⟩
  · cases h
    rw [value_of_neg (not_le.1 hsign)] at hpos ⊢
    obtain ⟨w, hw, hclose⟩ := within_scaleDown hstands (e := (-d.exponent).toNat) (by omega)
    have hdigits := hnear.div le_rfl (t := 10 ^ (-d.exponent).toNat) (one_le_pow₀ (by norm_num))
    exact ⟨w, hw, (hdigits.trans hclose (by linarith)).mono hpos hsum (by linarith)⟩

/-! ## No overflow -/

section Range

variable {m : ℕ} {q : ℤ}

/-- Below the two greatest doubles there is room for the roundings. -/
theorem near_mul_near_lt (h : n * 10 ^ e ≤ (2 ^ 54 - 5) * (2 : ℚ) ^ (970 : ℤ)) :
    near n * near (10 ^ e) < overflow := by
  have hnat := (abs_le.1 (within_near_natCast n)).2
  have hten := (abs_le.1 (within_near_of_one_le (v := 10 ^ e) (one_le_pow₀ (by norm_num)))).2
  calc near n * near (10 ^ e) ≤ (n * (1 + roundoff)) * (10 ^ e * (1 + roundoff)) := by
        refine mul_le_mul (by linarith) (by linarith) (near_nonneg _) ?_
        exact mul_nonneg (Nat.cast_nonneg n) (by linarith [roundoff_pos])
    _ = n * 10 ^ e * (1 + roundoff) ^ 2 := by ring
    _ ≤ (2 ^ 54 - 5) * 2 ^ (970 : ℤ) * (1 + roundoff) ^ 2 :=
      mul_le_mul_of_nonneg_right h (sq_nonneg _)
    _ = ((2 ^ 54 - 5) * (1 + roundoff) ^ 2) * 2 ^ (970 : ℤ) := by ring
    _ < overflow := by
      refine mul_lt_mul_of_pos_right ?_ (two_zpow_pos 970)
      unfold roundoff
      norm_num

/-- The two greatest doubles are read, too. -/
theorem isSome_greatest : ∀ m ∈ [2 ^ 53 - 1, 2 ^ 53 - 2],
    (scaled? (written m 971).digits (written m 971).exponent).isSome = true := by
  decide +kernel

theorem isSome_scaled? (hdigits : d.digits ≤ maxSignificand) (hu : d.exponent ≤ 308)
    (hv : value d ≤ (2 ^ 54 - 5) * 2 ^ (970 : ℤ)) :
    (scaled? d.digits d.exponent).isSome = true := by
  unfold scaled?
  split_ifs with hsign
  · have he : d.exponent.toNat ≤ 308 := by omega
    rw [value_of_nonneg hsign] at hv
    have hnonneg := mul_nonneg (near_nonneg d.digits) (near_nonneg (10 ^ d.exponent.toNat))
    have hprod := stands_nearest hnonneg ((near_lt_iff hnonneg).2 (near_mul_near_lt hv))
    rw [← (stands_digits hdigits).mul (stands_powerOfTen he)] at hprod
    simp [scaleUp?, he, hprod.isInf_eq_false]
  · rfl

theorem value_le_of_mem (h : Canonical m q) (hv : Mem (Decimal.interval m q) v)
    (hq : q ≤ maxExponent) (hm : q < maxExponent ∨ m + 3 ≤ 2 ^ 53) :
    v ≤ (2 ^ 54 - 5) * 2 ^ (970 : ℤ) := by
  have hhigh := (mem_half h.pos hv).2.1
  have hmax : (m : ℚ) + 1 ≤ 2 ^ 53 := by exact_mod_cast h.lt
  have hpos : (0 : ℚ) ≤ m + 1 / 2 := by positivity
  unfold maxExponent at hq hm
  rcases hm with hm | hm
  · have hle : (m : ℚ) + 1 / 2 ≤ 2 ^ 54 - 5 := by linarith
    have hp : (2 : ℚ) ^ q ≤ 2 ^ (970 : ℤ) := zpow_le_zpow_right₀ one_le_two (by omega)
    calc v ≤ (m + 1 / 2) * 2 ^ q := hhigh
      _ ≤ (m + 1 / 2) * 2 ^ (970 : ℤ) := mul_le_mul_of_nonneg_left hp hpos
      _ ≤ (2 ^ 54 - 5) * 2 ^ (970 : ℤ) := mul_le_mul_of_nonneg_right hle (two_zpow_pos 970).le
  · have hm' : (m : ℚ) + 3 ≤ 2 ^ 53 := by exact_mod_cast hm
    have hle : 2 * (m : ℚ) + 1 ≤ 2 ^ 54 - 5 := by linarith
    have hp : (2 : ℚ) ^ q ≤ 2 * 2 ^ (970 : ℤ) := by
      calc (2 : ℚ) ^ q ≤ 2 ^ (1 + 970 : ℤ) := zpow_le_zpow_right₀ one_le_two (by omega)
        _ = 2 * 2 ^ (970 : ℤ) := by rw [two_zpow_add, zpow_one]
    calc v ≤ (m + 1 / 2) * 2 ^ q := hhigh
      _ ≤ (m + 1 / 2) * (2 * 2 ^ (970 : ℤ)) := mul_le_mul_of_nonneg_left hp hpos
      _ = (2 * m + 1) * 2 ^ (970 : ℤ) := by ring
      _ ≤ (2 ^ 54 - 5) * 2 ^ (970 : ℤ) := mul_le_mul_of_nonneg_right hle (two_zpow_pos 970).le

theorem isSome_written (h : Canonical m q) (hq : q ≤ maxExponent) :
    (scaled? (written m q).digits (written m q).exponent).isSome = true := by
  by_cases hm : q < maxExponent ∨ m + 3 ≤ 2 ^ 53
  · exact isSome_scaled? (digits_written_le h hq) (exponent_written_bounds h hq).2
      (value_le_of_mem h (mem_written h hq) hq hm)
  · have hlt := h.lt
    unfold maxExponent at hq hm
    obtain rfl : q = 971 := by omega
    refine isSome_greatest m ?_
    rw [List.mem_cons, List.mem_singleton]
    omega

end Range

/-! ## Exact numbers -/

theorem near_ten (he : e ≤ 22) : near (10 ^ e) = 10 ^ e := by
  have h5 : 5 ^ e ≤ 2 ^ 53 := (Nat.pow_le_pow_right (by norm_num) he).trans (by norm_num)
  have hleast : -1074 ≤ (e : ℤ) := by omega
  have h := near_bits h5 hleast
  have hten : ((5 ^ e : ℕ) : ℚ) * 2 ^ (e : ℤ) = 10 ^ e := by
    rw [Nat.cast_pow, Nat.cast_ofNat, zpow_natCast, ← mul_pow]
    norm_num
  rwa [hten] at h

theorem stands_ten (he : e ≤ 22) : Stands (powerOfTen e) (10 ^ e) := by
  have h := stands_powerOfTen (e := e) (by omega)
  rwa [near_ten he] at h

/-- Exact digits and an exact power of ten make one rounding. -/
theorem scaled?_exact (hdigits : near d.digits = d.digits) (hfits : d.digits ≤ maxSignificand)
    (hl : -22 ≤ d.exponent) (hu : d.exponent ≤ 22) (hv : value d < overflow) :
    scaled? d.digits d.exponent = some (nearest (value d)) := by
  have hstands := stands_digits hfits
  rw [hdigits] at hstands
  unfold scaled?
  split_ifs with hsign
  · have hfew : d.exponent.toNat ≤ 22 := by omega
    have hrange : d.exponent.toNat ≤ 308 := by omega
    have hprod := hstands.mul (stands_ten hfew)
    rw [← value_of_nonneg hsign] at hprod
    have hpos := value_nonneg d
    have hfinite := (stands_nearest hpos ((near_lt_iff hpos).2 hv)).isInf_eq_false
    simp [scaleUp?, hrange, hprod, hfinite]
  · have hfew : (-d.exponent).toNat ≤ 22 := by omega
    have hrange : (-d.exponent).toNat ≤ 308 := by omega
    have hquot := hstands.div (stands_ten hfew) (by positivity)
    rw [← value_of_neg (not_le.1 hsign)] at hquot
    rw [scaleDown, if_pos hrange, hquot]

/-- A zero is read back with its sign. -/
theorem number?_ofFloat_zero {s : Sign} (hx : x.toModel.unpack = .zero s) :
    Document.number? (Node.ofFloat x) = some x := by
  have hvalue : value ⟨0, -1⟩ = 0 := by rw [value, Nat.cast_zero, zero_mul]
  have hzero := scaled?_exact (d := ⟨0, -1⟩) (near_natCast (Nat.zero_le _)) (Nat.zero_le _)
    (by norm_num) (by norm_num) (hvalue.trans_lt overflow_pos)
  rw [hvalue, ← stands_zero.eq_nearest] at hzero
  rw [ofFloat_zero hx, number?_of_room rfl (Nat.zero_le _)]
  exact congrArg (Option.map _) hzero |>.trans (congrArg some (signed_of_zero hx))

/-! ## Reading a double back -/

section Reread

variable {m : ℕ} {q : ℤ} (h : Canonical m q) (hq : q ≤ maxExponent)
include h hq

/-- What is read of the digits of a double is close to it. -/
theorem exists_close : ∃ z, scaled? (written m q).digits (written m q).exponent = some z ∧
    ∃ w, Stands z w ∧ |w - m * 2 ^ q| ≤ m * 2 ^ q / 2 ^ 50 + 2 ^ (-1072 : ℤ) := by
  have hr := roundoff_pos
  have hh := halfUnit_pos
  obtain ⟨z, hz⟩ := Option.isSome_iff_exists.1 (isSome_written h hq)
  obtain ⟨hl, hu⟩ := exponent_written_bounds h hq
  obtain ⟨w, hw, hread⟩ := within_scaled? (digits_written_le h hq) (by omega) hu hz
  have hsize : (0 : ℚ) ≤ m * 2 ^ q := mul_nonneg (Nat.cast_nonneg m) (two_zpow_pos q).le
  have hone : 13 / 2 * roundoff ≤ 1 := by
    unfold roundoff
    norm_num
  have hrest := mul_le_mul_of_nonneg_right hone hh.le
  have hclose : Within (1 / 2 ^ 50) (8 * halfUnit) (m * 2 ^ q) w := by
    refine ((within_of_mem h (mem_written h hq)).trans hread (by linarith)).mono hsize ?_ ?_
    · unfold roundoff
      norm_num
    · linarith
  rw [Within, ← eight_mul_halfUnit, one_div_mul_eq_div] at hclose
  exact ⟨z, hz, w, hw, hclose⟩

end Reread

/-- **A double is read back**, and what is read is close to it. -/
theorem exists_reread (hx : x.isFinite = true) : ∃ y, Document.number? (Node.ofFloat x) = some y ∧
    y.isFinite = true ∧ 0 ≤ toRat x * toRat y ∧
      |toRat y - toRat x| ≤ |toRat x| / 2 ^ 50 + 2 ^ (-1072 : ℤ) := by
  rcases unpack_of_isFinite hx with ⟨s, hu⟩ | ⟨s, m, q, hm, hu⟩
  · refine ⟨x, number?_ofFloat_zero hu, hx, mul_self_nonneg _, ?_⟩
    rw [toRat_zero hu, sub_self, abs_zero, zero_div, zero_add]
    exact (two_zpow_pos _).le
  · obtain ⟨hc, hq⟩ := canonical_of_unpack hu
    obtain ⟨z, hz, w, hw, hclose⟩ := exists_close hc hq
    have hsize : (0 : ℚ) ≤ m * 2 ^ q := mul_nonneg (Nat.cast_nonneg m) (two_zpow_pos q).le
    refine ⟨_, by rw [number?_ofFloat hu, hz, Option.map_some],
      isFinite_signed _ hw.isFinite, ?_⟩
    rw [toRat_finite hu, toRat_signed s hw.isFinite, hw.toRat_eq, abs_signed, abs_of_nonneg hsize]
    cases s with
    | positive => exact ⟨mul_nonneg hsize hw.nonneg, hclose⟩
    | negative =>
      change 0 ≤ -(m * 2 ^ q) * -w ∧ |-w - -(m * 2 ^ q)| ≤ _
      rw [neg_mul_neg, neg_sub_neg, abs_sub_comm]
      exact ⟨mul_nonneg hsize hw.nonneg, hclose⟩

/-! ## Short numbers -/

/-- The double of a decimal number `n / 10 ^ k` with `n` up to `10 ^ 15` and `k` up to twenty-two,
with either sign. -/
def Short (x : Float) : Prop :=
  ∃ (negative : Bool) (n k : ℕ), n ≤ 10 ^ 15 ∧ k ≤ 22 ∧
    x = Decimal.signed negative (Decimal.toFloat ⟨n, -k⟩)

theorem short_le (k : ℕ) (hn : n ≤ 10 ^ 15) : (n : ℚ) * 10 ^ (-(k : ℤ)) ≤ 10 ^ 15 := by
  have hone : (10 : ℚ) ^ (-(k : ℤ)) ≤ 1 := zpow_le_one_of_nonpos₀ (by norm_num) (by omega)
  exact (mul_le_of_le_one_right (Nat.cast_nonneg n) hone).trans (by exact_mod_cast hn)

theorem le_short {k : ℕ} (hn : 0 < n) (hk : k ≤ 22) : 1 / 2 ^ 200 ≤ (n : ℚ) * 10 ^ (-(k : ℤ)) := by
  calc (1 : ℚ) / 2 ^ 200 ≤ 10 ^ (-22 : ℤ) := by norm_num
    _ ≤ 10 ^ (-(k : ℤ)) := zpow_le_zpow_right₀ (by norm_num) (by omega)
    _ ≤ n * 10 ^ (-(k : ℤ)) :=
      le_mul_of_one_le_left (ten_zpow_pos _).le (by exact_mod_cast hn)

theorem lt_overflow_of_le (h : v ≤ 3 * 10 ^ 15) : v < overflow := by
  refine lt_overflow (n := 2 ^ 53) (k := 0) le_rfl (by norm_num) ?_
  push_cast
  linarith

/-- On a grid that is no finer, digits of a number up to three times as great are three times as
many at most. -/
theorem digits_le {k : ℕ} (hv : value d ≤ 3 * (n * 10 ^ (-(k : ℤ)))) (hk : -(k : ℤ) ≤ d.exponent) :
    d.digits ≤ 3 * n := by
  have hstep : (10 : ℚ) ^ (-(k : ℤ)) ≤ 10 ^ d.exponent := zpow_le_zpow_right₀ (by norm_num) hk
  have hle : (d.digits : ℚ) * 10 ^ d.exponent ≤ (3 * n : ℕ) * 10 ^ d.exponent := by
    push_cast
    calc (d.digits : ℚ) * 10 ^ d.exponent ≤ 3 * (n * 10 ^ (-(k : ℤ))) := hv
      _ ≤ 3 * (n * 10 ^ d.exponent) := by
        linarith [mul_le_mul_of_nonneg_left hstep (Nat.cast_nonneg (α := ℚ) n)]
      _ = 3 * n * 10 ^ d.exponent := by ring
  exact_mod_cast le_of_mul_le_mul_right hle (ten_zpow_pos _)

theorem exponent_lt (hd : 0 < d.digits) (hv : value d ≤ 3 * 10 ^ 15) : d.exponent < 16 := by
  refine (zpow_lt_zpow_iff_right₀ (show (1 : ℚ) < 10 by norm_num)).1 ?_
  calc (10 : ℚ) ^ d.exponent ≤ value d :=
        le_mul_of_one_le_left (ten_zpow_pos _).le (by exact_mod_cast hd)
    _ ≤ 3 * 10 ^ 15 := hv
    _ < 10 ^ (16 : ℤ) := by norm_num

/-- Half of the digits of a whole number with a zero after its point fits a mantissa. -/
theorem near_ten_mul {j : ℕ} (hj : j ≤ 10 ^ 15) : near (10 * j : ℕ) = (10 * j : ℕ) := by
  have h := near_bits (n := 5 * j) (q := 1) (by omega) (by norm_num)
  have htwo : ((5 * j : ℕ) : ℚ) * 2 ^ (1 : ℤ) = (10 * j : ℕ) := by
    push_cast
    ring
  rwa [htwo] at h

section Short

variable {k m : ℕ} {q : ℤ} (h : Canonical m q) (hq : q ≤ maxExponent)
include h hq

/-- The digits that are written for a short number are exact, and so is their power of ten. -/
theorem exact_written (hn : n ≤ 10 ^ 15) (hk : k ≤ 22) (hpos : 0 < n)
    (hnear : near (n * 10 ^ (-(k : ℤ))) = m * 2 ^ q) :
    near (written m q).digits = (written m q).digits ∧ -22 ≤ (written m q).exponent ∧
      (written m q).exponent ≤ 22 ∧ value (written m q) < overflow := by
  have hshort : (0 : ℚ) < n * 10 ^ (-(k : ℤ)) :=
    mul_pos (by exact_mod_cast hpos) (ten_zpow_pos _)
  have hmem := mem_written h hq
  have hwithin := mem_of_near h hshort hnear
  have hvalue := value_written m q
  have hratio := le_three_mul h hmem hwithin
  have hle := short_le k hn
  have hupper : value (written m q) ≤ 3 * 10 ^ 15 := by linarith
  have hlt := lt_overflow_of_le hupper
  rcases written_cases m q with heq | ⟨j, -, hj, heq⟩
  · have hgrid := le_exponent_shortest .even h hq hwithin
    have hdigits := digits_le hratio (heq ▸ hgrid)
    have hexponent := exponent_lt (digits_pos_of_value (pos_of_mem h.pos hmem)) hupper
    rw [← heq] at hgrid
    exact ⟨near_natCast (by omega), by omega, by omega, hlt⟩
  · -- a whole number of that size is the double itself
    rw [hj] at hvalue
    have hfew : j ≤ 3 * 10 ^ 15 := by
      rw [hvalue] at hupper
      exact_mod_cast hupper
    have hwhole : (j : ℚ) = m * 2 ^ q := by
      rw [← near_of_mem h hmem, hvalue, near_natCast (by omega)]
    have hmono := near_mono hshort.le hle
    rw [hnear, ← hwhole, near_ten (by norm_num)] at hmono
    have hexact := near_ten_mul (j := j) (by exact_mod_cast hmono)
    rw [heq] at hlt ⊢
    exact ⟨hexact, by norm_num, by norm_num, hlt⟩

theorem scaled?_short (hn : n ≤ 10 ^ 15) (hk : k ≤ 22) (hpos : 0 < n)
    (hnear : near (n * 10 ^ (-(k : ℤ))) = m * 2 ^ q) :
    scaled? (written m q).digits (written m q).exponent =
      some (ofUnpacked (.finite .positive m q h.pos)) := by
  obtain ⟨hexact, hl, hu, hlt⟩ := exact_written h hq hn hk hpos hnear
  rw [scaled?_exact hexact (digits_written_le h hq) hl hu hlt, nearest,
    rounded_of_mem .positive h (mem_written h hq)]

end Short

/-- **A short number is read back as it is.** -/
theorem reread_short (hx : Short x) : Document.number? (Node.ofFloat x) = some x := by
  obtain ⟨negative, n, k, hn, hk, rfl⟩ := hx
  rcases Nat.eq_zero_or_pos n with rfl | hpos
  · have hzero : Decimal.toFloat ⟨0, -k⟩ = 0.0 := if_pos rfl
    rw [hzero]
    cases negative with
    | false => exact number?_ofFloat_zero (s := .positive) rfl
    | true => exact number?_ofFloat_zero (s := .negative) rfl
  · have htoFloat := toFloat_eq_nearest (d := ⟨n, -k⟩) hpos
    rw [value] at htoFloat
    have hv : (0 : ℚ) < n * 10 ^ (-(k : ℤ)) :=
      mul_pos (by exact_mod_cast hpos) (ten_zpow_pos _)
    have hlt : near (n * 10 ^ (-(k : ℤ))) < 2 ^ (1024 : ℤ) :=
      (near_lt_iff hv.le).2 (lt_overflow_of_le (by linarith [short_le k hn]))
    have hlarge : 0 < near (n * 10 ^ (-(k : ℤ))) := by
      refine lt_of_lt_of_le (mul_pos hv ?_) (near_bounds (normal_of_le (le_short hpos hk))).1
      unfold roundoff
      norm_num
    obtain ⟨m, q, hm, hu, hnear⟩ := (stands_nearest hv.le hlt).exact hlarge
    obtain ⟨hc, hq⟩ := canonical_of_unpack hu
    obtain ⟨s, hs⟩ := unpack_signed negative hu
    rw [htoFloat, number?_ofFloat hs, scaled?_short hc hq hn hk hpos hnear, Option.map_some,
      signed_of_finite hs]

end ItemBudget.Json
