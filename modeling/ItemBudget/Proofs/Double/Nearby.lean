import ItemBudget.Proofs.Double.Nearest

/-!
# Order and accuracy of rounding

`near v` is the rational to which `v` is rounded when exponents have no upper bound. Rounding keeps
the order (`near_mono`) and every number of at most 53 bits (`near_bits`), and it moves a number of
normal size by at most `roundoff` of itself (`near_bounds`). A number that lies closer to a double
than half its unit is rounded to that double (`near_of_close`), and one right below a double to that
double or above (`le_near_of_close`).
-/

namespace ItemBudget.Double

open Float.Model (UnpackedFloat)
open Float.Model.UnpackedFloat

/-! ## The nearest whole number -/

theorem roundEven_natCast (n : ℕ) : roundEven n = n :=
  roundEven_of_close (sub_lt_self _ one_half_pos) (lt_add_of_pos_right _ one_half_pos)

theorem roundEven_zero : roundEven 0 = 0 := by
  exact_mod_cast roundEven_natCast 0

theorem roundEven_mono {v w : ℚ} (h : v ≤ w) : roundEven v ≤ roundEven w := by
  rcases (Nat.floor_mono h).lt_or_eq with hlt | heq
  · have hv : v < ((⌊v⌋₊ + 1 : ℕ) : ℚ) := by
      push_cast
      exact Nat.lt_floor_add_one v
    have hw : ((⌊v⌋₊ + 1 : ℕ) : ℚ) ≤ w := (Nat.le_floor_iff' (Nat.succ_ne_zero _)).1 hlt
    exact le_trans (roundEven_le hv) (le_roundEven hw)
  · simp only [roundEven, ← heq]
    split_ifs <;> first | omega | linarith

theorem roundEven_bounds {v : ℚ} (hv : 0 ≤ v) :
    v - 1 / 2 ≤ roundEven v ∧ (roundEven v : ℚ) ≤ v + 1 / 2 := by
  have hl := Nat.floor_le hv
  have hu := Nat.lt_floor_add_one v
  simp only [roundEven]
  split_ifs with h1 h2
  · constructor <;> linarith
  · push_cast
    constructor <;> linarith
  · have heq : v = ⌊v⌋₊ + 1 / 2 := le_antisymm (not_lt.1 h2) (not_lt.1 h1)
    rcases Nat.mod_two_eq_zero_or_one ⌊v⌋₊ with h | h
    · rw [h]; push_cast; constructor <;> linarith
    · rw [h]; push_cast; constructor <;> linarith

/-! ## The nearest rational of the format -/

/-- What a rational is rounded to, whatever its size. -/
def near (v : ℚ) : ℚ := roundEven (v / 2 ^ quantum v) * 2 ^ quantum v

theorem near_nonneg (v : ℚ) : 0 ≤ near v :=
  mul_nonneg (Nat.cast_nonneg _) (two_zpow_pos _).le

theorem near_zero : near 0 = 0 := by
  rw [near, zero_div, roundEven_zero, Nat.cast_zero, zero_mul]

theorem quantum_mono {v w : ℚ} (hv : 0 < v) (h : v ≤ w) : quantum v ≤ quantum w := by
  have hlog : Int.log 2 v ≤ Int.log 2 w := Int.log_mono_right hv h
  unfold quantum
  omega

/-- Above the least unit, a number uses all the bits of its unit. -/
theorem le_div_quantum {v : ℚ} (hv : 0 < v) (h : -1074 < quantum v) :
    ((2 ^ 52 : ℕ) : ℚ) ≤ v / 2 ^ quantum v := by
  have hq : quantum v = Int.log 2 v - 52 := by
    unfold quantum at h ⊢
    omega
  have hlog := two_zpow_log_le hv
  have hsplit : Int.log 2 v = 52 + quantum v := by omega
  rw [hsplit, two_zpow_add] at hlog
  rw [le_div_iff₀ (two_zpow_pos _)]
  exact_mod_cast hlog

/-- **Rounding keeps the order.** -/
theorem near_mono {v w : ℚ} (hv : 0 ≤ v) (h : v ≤ w) : near v ≤ near w := by
  rcases hv.lt_or_eq with hpos | rfl
  · have hw : 0 < w := lt_of_lt_of_le hpos h
    rcases (quantum_mono hpos h).lt_or_eq with hlt | heq
    · -- `v` rounds to at most the power of two where the unit of `w` begins
      have hleast : -1074 ≤ quantum v := le_max_right _ _
      have hv' : (roundEven (v / 2 ^ quantum v) : ℚ) ≤ ((2 ^ 53 : ℕ) : ℚ) :=
        Nat.cast_le.2 (roundEven_le div_quantum_lt)
      have hw' : ((2 ^ 52 : ℕ) : ℚ) ≤ roundEven (w / 2 ^ quantum w) :=
        Nat.cast_le.2 (le_roundEven (le_div_quantum hw (by omega)))
      calc near v ≤ ((2 ^ 53 : ℕ) : ℚ) * 2 ^ quantum v :=
            mul_le_mul_of_nonneg_right hv' (two_zpow_pos _).le
        _ = 2 ^ (53 + quantum v) := by rw [two_zpow_add]; norm_num
        _ ≤ 2 ^ (52 + quantum w) := zpow_le_zpow_right₀ one_le_two (by omega)
        _ = ((2 ^ 52 : ℕ) : ℚ) * 2 ^ quantum w := by rw [two_zpow_add]; norm_num
        _ ≤ near w := mul_le_mul_of_nonneg_right hw' (two_zpow_pos _).le
    · have hp := two_zpow_pos (quantum w)
      unfold near
      rw [heq]
      have hle : v / 2 ^ quantum w ≤ w / 2 ^ quantum w := div_le_div_of_nonneg_right h hp.le
      exact mul_le_mul_of_nonneg_right (Nat.cast_le.2 (roundEven_mono hle)) hp.le
  · rw [near_zero]
    exact near_nonneg w

theorem near_of_lt {n : ℕ} {q : ℤ} (hn : n < 2 ^ 53) (hq : -1074 ≤ q) :
    near (n * 2 ^ q) = n * 2 ^ q := by
  rcases Nat.eq_zero_or_pos n with rfl | hpos
  · rw [Nat.cast_zero, zero_mul, near_zero]
  · have hv : (0 : ℚ) < n * 2 ^ q := mul_pos (by exact_mod_cast hpos) (two_zpow_pos q)
    have hlog : Int.log 2 ((n : ℚ) * 2 ^ q) < 53 + q := by
      rw [← Int.lt_zpow_iff_log_lt one_lt_two hv]
      push_cast
      rw [two_zpow_add]
      exact mul_lt_mul_of_pos_right (by exact_mod_cast hn) (two_zpow_pos q)
    have hle : quantum (n * 2 ^ q) ≤ q := by unfold quantum; omega
    have hunit : (n : ℚ) * 2 ^ q / 2 ^ quantum (n * 2 ^ q)
        = ((n * 2 ^ (q - quantum (n * 2 ^ q)).toNat : ℕ) : ℚ) := by
      rw [div_eq_iff (two_zpow_pos _).ne']
      push_cast
      rw [mul_assoc, ← zpow_natCast, ← two_zpow_add, Int.toNat_of_nonneg (by omega),
        sub_add_cancel]
    unfold near
    rw [hunit, roundEven_natCast, ← hunit, div_mul_cancel₀ _ (two_zpow_pos _).ne']

/-- **Rounding keeps a number of at most 53 bits.** -/
theorem near_bits {n : ℕ} {q : ℤ} (hn : n ≤ 2 ^ 53) (hq : -1074 ≤ q) :
    near (n * 2 ^ q) = n * 2 ^ q := by
  rcases hn.lt_or_eq with hlt | rfl
  · exact near_of_lt hlt hq
  · have h : ((2 ^ 53 : ℕ) : ℚ) * 2 ^ q = ((2 ^ 52 : ℕ) : ℚ) * 2 ^ (q + 1) := by
      rw [two_zpow_add]
      push_cast
      ring
    rw [h]
    exact near_of_lt (by norm_num) (by omega)

theorem near_natCast {n : ℕ} (hn : n ≤ 2 ^ 53) : near n = n := by
  have h := near_bits hn (show -1074 ≤ (0 : ℤ) by norm_num)
  rwa [zpow_zero, mul_one] at h

theorem near_one : near 1 = 1 := by
  exact_mod_cast near_natCast (n := 1) (by norm_num)

theorem one_le_near {v : ℚ} (h : 1 ≤ v) : 1 ≤ near v := by
  rw [← near_one]
  exact near_mono zero_le_one h

theorem near_le_two_pow {v : ℚ} {k : ℕ} (hv : 0 ≤ v) (h : v ≤ 2 ^ k) : near v ≤ 2 ^ k := by
  have hkeep := near_bits (n := 1) (q := k) (by norm_num) (by omega)
  rw [Nat.cast_one, one_mul, zpow_natCast] at hkeep
  rw [← hkeep]
  exact near_mono hv h

/-! ## Accuracy -/

/-- The part of a number by which rounding may move it. -/
def roundoff : ℚ := 1 / 2 ^ 53

theorem roundoff_pos : 0 < roundoff := by
  unfold roundoff
  norm_num

/-- Zero, or large enough to use all the bits of a unit. -/
def Normal (v : ℚ) : Prop := v = 0 ∨ 2 ^ (-1022 : ℤ) ≤ v

theorem normal_of_le {v : ℚ} (h : 1 / 2 ^ 200 ≤ v) : Normal v := by
  right
  calc (2 : ℚ) ^ (-1022 : ℤ) ≤ 2 ^ (-200 : ℤ) := zpow_le_zpow_right₀ one_le_two (by norm_num)
    _ = 1 / 2 ^ 200 := by rw [zpow_neg, one_div]; norm_cast
    _ ≤ v := h

theorem near_bounds {v : ℚ} (hv : Normal v) :
    v * (1 - roundoff) ≤ near v ∧ near v ≤ v * (1 + roundoff) := by
  rcases hv with rfl | hv
  · rw [near_zero, zero_mul, zero_mul]
    exact ⟨le_rfl, le_rfl⟩
  have hpos : 0 < v := lt_of_lt_of_le (two_zpow_pos _) hv
  have hq : quantum v = Int.log 2 v - 52 := by
    have hlog : -1022 ≤ Int.log 2 v :=
      (Int.zpow_le_iff_le_log one_lt_two hpos).1 (by exact_mod_cast hv)
    unfold quantum
    omega
  have hp := two_zpow_pos (quantum v)
  obtain ⟨hl, hu⟩ := roundEven_bounds (div_nonneg hpos.le hp.le)
  -- half a unit is at most `roundoff` of the number
  have hhalf : 2 ^ quantum v / 2 ≤ v * roundoff := by
    have hlog := two_zpow_log_le hpos
    have hsplit : Int.log 2 v = 52 + quantum v := by omega
    rw [hsplit, two_zpow_add] at hlog
    unfold roundoff
    norm_num at hlog ⊢
    linarith
  have hcancel : v / 2 ^ quantum v * 2 ^ quantum v = v := div_mul_cancel₀ _ hp.ne'
  unfold near
  constructor
  · nlinarith
  · nlinarith

/-- A number of at most 53 units is moved by at most half a unit. -/
theorem near_close {v : ℚ} {k : ℤ} (hk : -1074 ≤ k) (hv : 0 ≤ v) (h : v < 2 ^ (k + 53)) :
    v - 2 ^ k / 2 ≤ near v ∧ near v ≤ v + 2 ^ k / 2 := by
  rcases hv.lt_or_eq with hpos | rfl
  · have hlog : Int.log 2 v < k + 53 := (Int.lt_zpow_iff_log_lt one_lt_two hpos).1 (by exact_mod_cast h)
    have hunit : (2 : ℚ) ^ quantum v ≤ 2 ^ k :=
      zpow_le_zpow_right₀ one_le_two (by unfold quantum; omega)
    have hp := two_zpow_pos (quantum v)
    obtain ⟨hl, hu⟩ := roundEven_bounds (div_nonneg hv hp.le)
    have hcancel : v / 2 ^ quantum v * 2 ^ quantum v = v := div_mul_cancel₀ _ hp.ne'
    unfold near
    constructor
    · nlinarith
    · nlinarith
  · have hp := two_zpow_pos k
    rw [near_zero]
    constructor
    · linarith
    · linarith

/-- A great number is rounded to a whole number of units. -/
theorem near_units {v : ℚ} {k : ℤ} (h : 2 ^ (k + 52) ≤ v) : ∃ n : ℕ, near v = n * 2 ^ k := by
  have hpos : 0 < v := lt_of_lt_of_le (two_zpow_pos _) h
  have hlog : k + 52 ≤ Int.log 2 v :=
    (Int.zpow_le_iff_le_log one_lt_two hpos).1 (by exact_mod_cast h)
  obtain ⟨j, hj⟩ := Int.eq_ofNat_of_zero_le (show 0 ≤ quantum v - k by unfold quantum; omega)
  refine ⟨roundEven (v / 2 ^ quantum v) * 2 ^ j, ?_⟩
  rw [near, show quantum v = j + k by omega, two_zpow_add, zpow_natCast]
  push_cast
  ring

/-! ## Rounded doubles -/

/-- The size of an unpacked double; an infinity and NaN have none. -/
def magnitude : UnpackedFloat → ℚ
  | .finite _ m q _ => m * 2 ^ q
  | _ => 0

theorem magnitude_rounded (s : Sign) (v : ℚ) : magnitude (rounded s v) = near v := by
  unfold rounded settle near
  split_ifs with h0 h53
  · simp [magnitude, h0]
  · rw [h53, magnitude, two_zpow_add]
    push_cast
    ring
  · rfl

theorem near_of_mem {m : ℕ} {q : ℤ} (h : Canonical m q) {v : ℚ}
    (hv : Mem (Decimal.interval m q) v) : near v = m * 2 ^ q := by
  rw [← magnitude_rounded .positive, rounded_of_mem .positive h hv]
  rfl

/-- A number that is closer to a double than half its unit has it as the nearest one. Right below a
power of two the unit is half as great. -/
theorem near_of_close {m : ℕ} {q : ℤ} {v : ℚ} (h : Canonical m q)
    (hl : (m : ℚ) * 2 ^ q - 2 ^ q / 2 < v) (hu : v < m * 2 ^ q + 2 ^ q / 2)
    (hleast : m = 2 ^ 52 → (m : ℚ) * 2 ^ q - 2 ^ q / 4 ≤ v) : near v = m * 2 ^ q := by
  have hp := two_zpow_pos q
  obtain ⟨a, rfl⟩ : ∃ a, v = a * 2 ^ q := ⟨v / 2 ^ q, (div_mul_cancel₀ _ hp.ne').symm⟩
  have hl' : (m : ℚ) - 1 / 2 < a := by
    refine lt_of_mul_lt_mul_right ?_ hp.le
    linarith
  have hu' : a < (m : ℚ) + 1 / 2 := by
    refine lt_of_mul_lt_mul_right ?_ hp.le
    linarith
  refine near_of_mem h (mem_interval h.pos hl'.le hu'.le ?_ fun hm _ => ?_)
  · rintro (rfl | rfl)
    · exact absurd hu' (lt_irrefl _)
    · exact absurd hl' (lt_irrefl _)
  · refine le_of_mul_le_mul_right ?_ hp
    linarith [hleast hm]

/-- What a number is rounded to has a canonical form, unless it is zero. -/
theorem exists_canonical_near {v : ℚ} (hv : 0 < v) (h : 0 < near v) :
    ∃ (m : ℕ) (q : ℤ), Canonical m q ∧ near v = m * 2 ^ q := by
  rw [← magnitude_rounded .positive] at h ⊢
  rcases rounded_cases .positive hv with hr | ⟨m, q, hc, hr⟩
  · rw [hr] at h
    exact absurd h (lt_irrefl 0)
  · rw [hr]
    exact ⟨m, q, hc, rfl⟩

theorem exists_canonical_of_near {r : ℚ} (hpos : 0 < r) (hr : near r = r) :
    ∃ (m : ℕ) (q : ℤ), Canonical m q ∧ r = m * 2 ^ q := by
  have h := exists_canonical_near hpos (by rwa [hr])
  rwa [hr] at h

/-- Taking one from a number that rounding keeps is exact. -/
theorem near_sub_one {p : ℚ} (hp : near p = p) (h1 : 1 ≤ p) (h : p ≤ 2 ^ 53) :
    near (p - 1) = p - 1 := by
  obtain ⟨m, q, hc, rfl⟩ := exists_canonical_of_near (lt_of_lt_of_le one_pos h1) hp
  rcases le_total 0 q with hq | hq
  · -- a whole number
    obtain ⟨n, rfl⟩ := Int.eq_ofNat_of_zero_le hq
    have hcast : (m : ℚ) * 2 ^ (n : ℤ) = (m * 2 ^ n : ℕ) := by push_cast; rw [zpow_natCast]
    rw [hcast] at h1 h ⊢
    have hpos : 1 ≤ m * 2 ^ n := by exact_mod_cast h1
    rw [← Nat.cast_pred hpos]
    exact near_natCast ((Nat.sub_le _ _).trans (by exact_mod_cast h))
  · -- one is a number of units
    obtain ⟨n, hn⟩ := Int.eq_ofNat_of_zero_le (show 0 ≤ -q by omega)
    obtain rfl : q = -(n : ℤ) := by omega
    have hunits : (1 : ℚ) = (2 ^ n : ℕ) * 2 ^ (-(n : ℤ)) := by
      rw [zpow_neg, zpow_natCast]
      push_cast
      exact (mul_inv_cancel₀ (by positivity)).symm
    have hle : 2 ^ n ≤ m := by
      rw [hunits] at h1
      exact_mod_cast le_of_mul_le_mul_right h1 (two_zpow_pos _)
    have hdiff : (m : ℚ) * 2 ^ (-(n : ℤ)) - 1 = (m - 2 ^ n : ℕ) * 2 ^ (-(n : ℤ)) := by
      rw [Nat.cast_sub hle, sub_mul, ← hunits]
    rw [hdiff]
    exact near_bits ((Nat.sub_le _ _).trans hc.lt.le) hc.least

/-- A number right below a double is rounded to the double or above. -/
theorem le_near_of_close {r v : ℚ} (hpos : 0 < r) (hr : near r = r)
    (hv : r * (1 - 1 / 2 ^ 56) ≤ v) : r ≤ near v := by
  rcases le_or_gt r v with h | h
  · rw [← hr]
    exact near_mono hpos.le h
  · obtain ⟨m, q, hc, rfl⟩ := exists_canonical_of_near hpos hr
    have hp := two_zpow_pos q
    have hm : (m : ℚ) < 2 ^ 53 := by exact_mod_cast hc.lt
    -- a part in `2 ^ 56` is less than an eighth of the unit
    have hpart : (m : ℚ) * 2 ^ q / 2 ^ 56 < 2 ^ q / 8 := by
      rw [div_lt_iff₀ (by norm_num)]
      nlinarith
    exact (near_of_close hc (by linarith) (by linarith) fun _ => by linarith).ge

end ItemBudget.Double
