import ItemBudget.Proofs.Double.Finite

/-!
# Rounding to hundredths

A fraction of a double that is below a half is a double of its own (`near_fract`), so taking the
whole part away and comparing with a half are exact. `round2 x` is therefore the double nearest to a
hundredth of `⌊y + 1/2⌋`, where `y` is the double `100 x` (`toRat_round2`): of the roundings, only
those of `100 x` and of the last division are seen.
-/

namespace ItemBudget.Double

open Float.Model (UnpackedFloat)
open Float.Model.UnpackedFloat

variable {x y : Float} {v : ℚ}

/-! ## Fractions -/

theorem stands_half : Stands 0.5 (1 / 2) :=
  .inr ⟨2 ^ 52, -53, by norm_num, rfl, by norm_num⟩

/-- A double with a fraction is below `2 ^ 52`. -/
theorem natAbs_floor_lt (h : Int.fract (toRat x) ≠ 0) : ⌊toRat x⌋.natAbs ≤ 2 ^ 52 := by
  obtain ⟨n, e, hn, -, heq⟩ := exists_units x
  have he : e < 0 := by
    by_contra hle
    obtain ⟨k, hk⟩ := whole_of_units n (not_lt.1 hle)
    refine h ?_
    rw [heq, hk, Int.fract_intCast]
  have hhalf : |toRat x| ≤ 2 ^ 52 := by
    have hcast : |(n : ℚ)| ≤ 2 ^ 53 := by
      rw [← Int.cast_abs, Int.abs_eq_natAbs]
      exact_mod_cast hn.le
    have hunit : (2 : ℚ) ^ e ≤ 2 ^ (-1 : ℤ) := zpow_le_zpow_right₀ one_le_two (by omega)
    rw [heq, abs_mul, abs_of_pos (two_zpow_pos e)]
    calc |(n : ℚ)| * 2 ^ e ≤ 2 ^ 53 * 2 ^ (-1 : ℤ) :=
          mul_le_mul hcast hunit (two_zpow_pos e).le (by norm_num)
      _ = 2 ^ 52 := by norm_num
  obtain ⟨hlow, hhigh⟩ := abs_le.1 hhalf
  have hl : (-2 ^ 52 : ℤ) ≤ ⌊toRat x⌋ := Int.le_floor.2 (by push_cast; linarith)
  have hu : ⌊toRat x⌋ ≤ 2 ^ 52 := by
    have hfloor := (Int.floor_le (toRat x)).trans hhigh
    exact_mod_cast hfloor
  omega

/-- A fraction of a double that is below a half is a double. -/
theorem near_fract (h : Int.fract (toRat x) < 1 / 2) :
    near (Int.fract (toRat x)) = Int.fract (toRat x) := by
  obtain ⟨n, e, hn, he, heq⟩ := exists_units x
  rcases le_or_gt 0 e with hle | hlt
  · obtain ⟨k, hk⟩ := whole_of_units n hle
    rw [heq, hk, Int.fract_intCast, near_zero]
  · obtain ⟨k, hk⟩ := Int.eq_ofNat_of_zero_le (show 0 ≤ -e by omega)
    obtain rfl : e = -(k : ℤ) := by omega
    have hunit : (0 : ℤ) < 2 ^ k := by positivity
    have hfract : Int.fract (toRat x) = ((n % 2 ^ k : ℤ) : ℚ) * 2 ^ (-(k : ℤ)) := by
      have hdiv := Int.fract_div_intCast_eq_div_intCast_mod (k := ℚ) (m := n) (n := 2 ^ k)
      push_cast at hdiv
      rw [heq, zpow_neg, zpow_natCast, ← div_eq_mul_inv, ← div_eq_mul_inv, hdiv]
    have hr0 := Int.emod_nonneg n hunit.ne'
    have hdiv := Int.mul_ediv_add_emod n (2 ^ k)
    have hsmall : 2 * (n % 2 ^ k) < 2 ^ k := by
      rw [hfract, zpow_neg, zpow_natCast, ← div_eq_mul_inv, div_lt_div_iff₀ (by positivity)
        (by norm_num)] at h
      have hlt : ((n % 2 ^ k * 2 : ℤ) : ℚ) < ((2 ^ k : ℤ) : ℚ) := by
        push_cast
        linarith
      have hint : n % 2 ^ k * 2 < 2 ^ k := by exact_mod_cast hlt
      linarith
    -- the remainder has no more bits than the number
    have hbits : (n % 2 ^ k).natAbs ≤ 2 ^ 53 := by
      generalize n % 2 ^ k = r at hr0 hdiv hsmall
      generalize n / 2 ^ k = j at hdiv
      generalize (2 : ℤ) ^ k = u at hunit hdiv hsmall
      rcases le_or_gt 0 j with hj | hj
      · have : 0 ≤ u * j := mul_nonneg hunit.le hj
        omega
      · have : u * j ≤ -u := by nlinarith
        omega
    have hkeep := nearSigned_bits hbits he
    rwa [← hfract, nearSigned_of_nonneg (Int.fract_nonneg _)] at hkeep

/-- The nearest whole number is the next one when the fraction is a half or more. -/
theorem floor_add_half (v : ℚ) :
    ⌊v + 1 / 2⌋ = ⌊v⌋ + if 1 / 2 ≤ Int.fract v then 1 else 0 := by
  have hnonneg := Int.fract_nonneg v
  have hlt := Int.fract_lt_one v
  have hself := Int.self_sub_floor v
  rw [Int.floor_eq_iff]
  split_ifs with h
  · push_cast
    constructor
    · linarith
    · linarith
  · push_cast
    constructor
    · linarith
    · linarith [not_le.1 h]

theorem half_le_near_fract_iff : 1 / 2 ≤ near (Int.fract (toRat x)) ↔ 1 / 2 ≤ Int.fract (toRat x) := by
  constructor
  · intro h
    by_contra hlt
    rw [near_fract (not_le.1 hlt)] at h
    exact hlt h
  · intro h
    rw [← stands_half.near_eq]
    exact near_mono (by norm_num) h

/-! ## Hundredths -/

theorem mul_hundred_ne_neg_zero (h : x ≠ -0.0) (hx : x.isFinite = true) : x * 100.0 ≠ -0.0 := by
  have hprod : x * 100.0 = ofUnpacked (UnpackedFloat.mul .binary64 x.toModel.unpack
    (100.0 : Float).toModel.unpack) := rfl
  rw [hprod, unpack_hundred]
  rcases unpack_of_isFinite hx with ⟨s, hu⟩ | ⟨s, m, e, hm, hu⟩
  · rw [hu]
    cases s with
    | positive =>
      show ofUnpacked (.zero .positive) ≠ -0.0
      rw [← zero_eq]
      exact zero_ne_neg_zero
    | negative =>
      rw [← ofUnpacked_unpack x, hu, ← neg_zero_eq] at h
      exact absurd rfl h
  · have hvalue : (m : ℚ) * 2 ^ e * (((7036874417766400 : ℕ) : ℚ) * 2 ^ (-46 : ℤ))
        = (100 * m : ℕ) * 2 ^ e := by
      push_cast
      norm_num
      ring
    rw [hu, mul_finite s .positive hm _ (by omega), hvalue]
    exact rounded_ne_neg_zero _ (by omega) (canonical_of_unpack hu).1.least

/-- **Rounding to hundredths counts them to the nearest**, a half up: before the last division, a
double that was rounded is the whole number nearest to hundred times it. -/
theorem round2_eq_div (hx : x.isFinite = true) (hy : (x * 100.0).isFinite = true) :
    ∃ z, round2 x = z / 100.0 ∧ z.isFinite = true ∧
      toRat z = ⌊toRat (x * 100.0) + 1 / 2⌋ ∧ (x ≠ -0.0 → z ≠ -0.0) := by
  have hne : x ≠ -0.0 → x * 100.0 ≠ -0.0 := fun h => mul_hundred_ne_neg_zero h hx
  unfold round2
  rw [if_pos hx]
  dsimp only
  generalize x * 100.0 = y at hy hne ⊢
  obtain ⟨hwhole, hfloor⟩ := toRat_wholePart hy
  have hfn := Int.fract_nonneg (toRat y)
  have hfl := Int.fract_lt_one (toRat y)
  have hself := Int.self_sub_floor (toRat y)
  have hdiff := rounds_sub hy hwhole
  rw [hfloor, hself] at hdiff
  obtain ⟨hdfinite, hdeq⟩ := hdiff.inRange (by
    rw [abs_of_nonneg hfn]
    exact hfl.trans one_lt_overflow)
  rw [nearSigned_of_nonneg hfn] at hdeq
  have hcond : (0.5 ≤ y - Decimal.wholePart y) ↔ 1 / 2 ≤ Int.fract (toRat y) := by
    rw [le_iff_toRat stands_half.isFinite hdfinite, stands_half.toRat_eq, hdeq,
      half_le_near_fract_iff]
  refine ⟨_, rfl, ?_⟩
  rw [floor_add_half]
  by_cases h : 0.5 ≤ y - Decimal.wholePart y
  · have hsmall := natAbs_floor_lt (x := y) (by linarith [hcond.1 h])
    have hsum := rounds_add hwhole stands_one.isFinite
    rw [hfloor, stands_one.toRat_eq, ← Int.cast_one, ← Int.cast_add] at hsum
    have hin : |((⌊toRat y⌋ + 1 : ℤ) : ℚ)| < overflow := by
      have h := abs_units_lt (n := ⌊toRat y⌋ + 1) (q := 0) (by omega) (by norm_num)
      rwa [zpow_zero, mul_one] at h
    obtain ⟨hz, heq⟩ := hsum.inRange hin
    rw [if_pos h, if_pos (hcond.1 h)]
    refine ⟨hz, ?_, fun h0 => ?_⟩
    · rw [heq, nearSigned_intCast (by omega)]
    · exact add_ne_neg_zero (wholePart_ne_neg_zero (hne h0) hy) _
  · rw [if_neg h, if_neg (mt hcond.2 h), add_zero]
    exact ⟨hwhole, hfloor, fun h0 => wholePart_ne_neg_zero (hne h0) hy⟩

/-- A double that stands for the nearest one to a whole number of hundredths. -/
def InHundredths (x : Float) : Prop :=
  x.isFinite = true ∧ ∃ k : ℤ, toRat x = nearSigned (k / 100)

theorem toRat_div_hundred (hx : x.isFinite = true) :
    (x / 100.0).isFinite = true ∧ toRat (x / 100.0) = nearSigned (toRat x / 100) := by
  refine (rounds_div_hundred hx).inRange ?_
  have hlt := abs_toRat_lt x
  rw [abs_div, abs_of_pos (show (0 : ℚ) < 100 by norm_num)]
  linarith [abs_nonneg (toRat x)]

theorem toRat_round2 (hx : x.isFinite = true) (hy : (x * 100.0).isFinite = true) :
    (round2 x).isFinite = true ∧
      toRat (round2 x) = nearSigned ((⌊toRat (x * 100.0) + 1 / 2⌋ : ℤ) / 100) := by
  obtain ⟨z, hround, hz, heq, -⟩ := round2_eq_div hx hy
  rw [hround, ← heq]
  exact toRat_div_hundred hz

theorem inHundredths_round2 (h : (round2 x).isFinite = true) : InHundredths (round2 x) := by
  obtain ⟨hx, hlt⟩ := (isFinite_round2_iff x).1 h
  refine ⟨h, _, (toRat_round2 hx ?_).2⟩
  refine ((rounds_mul_hundred hx).inRange ?_).1
  rwa [abs_mul, abs_toRat, abs_of_pos (by norm_num)]

/-- A double that is too great to be counted in hundredths becomes infinite. -/
theorem round2_of_infinite {s : Sign} (hx : x.isFinite = true)
    (hy : (x * 100.0).toModel.unpack = .infinity s) :
    (round2 x).toModel.unpack = .infinity s := by
  unfold round2
  rw [if_pos hx, eq_infinity hy]
  cases s with
  | _ => rfl

/-- Both results of two that round to the same hundredth are the same. -/
theorem round2_congr (hx : x.isFinite = true) (hy : (x * 100.0).isFinite = true)
    (hx' : y.isFinite = true) (hy' : (y * 100.0).isFinite = true) (hx0 : x ≠ -0.0) (hy0 : y ≠ -0.0)
    (h : ⌊toRat (x * 100.0) + 1 / 2⌋ = ⌊toRat (y * 100.0) + 1 / 2⌋) : round2 x = round2 y := by
  obtain ⟨z, hround, hz, heq, hz0⟩ := round2_eq_div hx hy
  obtain ⟨w, hround', hw, heq', hw0⟩ := round2_eq_div hx' hy'
  rw [hround, hround', eq_of_toRat hz hw (hz0 hx0) (hw0 hy0) (by rw [heq, heq', h])]

end ItemBudget.Double
