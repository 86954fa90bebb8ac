import ItemBudget.Proofs.Double.Arithmetic
import ItemBudget.Proofs.Double.Shortest

/-!
# How many digits are the shortest

What is rounded to a double lies in its interval (`mem_of_near`), and a grid with a point there has
one beside the center (`gridPoint?_isSome_of_mem`). So `shortest` stops at the coarsest of its grids
that has a point (`search_spec`): the grid above was too coarse, which bounds the digits, and no
number of the interval has a greater exponent.
-/

namespace ItemBudget.Double

open Decimal (Interval Tie)

variable {m n : ℕ} {q p : ℤ} {v : ℚ} {tie : Tie}

/-! ## The interval of a double -/

theorem roundEven_tie (h : v = roundEven v + 1 / 2 ∨ v = roundEven v - 1 / 2) (hv : 0 ≤ v) :
    roundEven v % 2 = 0 := by
  have hl := Nat.floor_le hv
  have hu := Nat.lt_floor_add_one v
  simp only [roundEven] at h ⊢
  split_ifs at h ⊢ with h1 h2
  · rcases h with h | h <;> linarith
  · push_cast at h
    rcases h with h | h <;> linarith
  · omega

theorem Canonical.unique {m' : ℕ} {q' : ℤ} (h : Canonical m q) (h' : Canonical m' q')
    (heq : (m : ℚ) * 2 ^ q = m' * 2 ^ q') : m = m' ∧ q = q' := by
  rcases lt_trichotomy q q' with hlt | rfl | hlt
  · exact absurd heq (lt_of_exponent_lt h h' hlt).ne
  · exact ⟨by exact_mod_cast mul_right_cancel₀ (two_zpow_pos q).ne' heq, rfl⟩
  · exact absurd heq (lt_of_exponent_lt h' h hlt).ne'

theorem Canonical.half_le (h : Canonical m q) : (m : ℚ) + 1 / 2 ≤ 2 ^ 53 := by
  have hlt : ((m + 1 : ℕ) : ℚ) ≤ ((2 ^ 53 : ℕ) : ℚ) := Nat.cast_le.2 h.lt
  push_cast at hlt
  linarith

/-- A double is rounded to in its own unit, or it is a power of two and the value is in the binade
below. -/
theorem near_cases (h : Canonical m q) (hv : 0 < v) (hnear : near v = m * 2 ^ q) :
    (quantum v = q ∧ roundEven (v / 2 ^ quantum v) = m) ∨
      (quantum v + 1 = q ∧ m = 2 ^ 52 ∧ roundEven (v / 2 ^ quantum v) = 2 ^ 53) := by
  have hleast : -1074 ≤ quantum v := le_max_right _ _
  have hfull : -1074 < quantum v → 2 ^ 52 ≤ roundEven (v / 2 ^ quantum v) :=
    fun hlt => le_roundEven (le_div_quantum hv hlt)
  rw [near] at hnear
  rcases (roundEven_le (div_quantum_lt (v := v))).lt_or_eq with hbits | hpower
  · left
    have hpos : 0 < roundEven (v / 2 ^ quantum v) := by
      refine Nat.pos_of_ne_zero fun h0 => ?_
      rw [h0, Nat.cast_zero, zero_mul] at hnear
      exact absurd hnear (mul_pos (by exact_mod_cast h.pos) (two_zpow_pos q)).ne
    have hcanonical : Canonical (roundEven (v / 2 ^ quantum v)) (quantum v) :=
      ⟨hpos, hbits, hleast, hleast.lt_or_eq.imp hfull Eq.symm⟩
    exact (hcanonical.unique h hnear).symm
  · right
    have hcanonical : Canonical (2 ^ 52) (quantum v + 1) :=
      ⟨by norm_num, by norm_num, by omega, .inl le_rfl⟩
    have hvalue : ((2 ^ 52 : ℕ) : ℚ) * 2 ^ (quantum v + 1) = m * 2 ^ q := by
      rw [← hnear, hpower, add_comm, two_zpow_add, zpow_one]
      push_cast
      ring
    obtain ⟨hm, hq⟩ := hcanonical.unique h hvalue
    exact ⟨hq, hm.symm, hpower⟩

/-- **What is rounded to a double lies in its interval.** -/
theorem mem_of_near (h : Canonical m q) (hv : 0 < v) (hnear : near v = m * 2 ^ q) :
    Mem (Decimal.interval m q) v := by
  have hp := two_zpow_pos (quantum v)
  have hdiv : 0 ≤ v / 2 ^ quantum v := (div_pos hv hp).le
  have hfull : -1074 < quantum v → ((2 ^ 52 : ℕ) : ℚ) ≤ v / 2 ^ quantum v := le_div_quantum hv
  have hlt := div_quantum_lt (v := v)
  have hcases := near_cases h hv hnear
  rw [← div_mul_cancel₀ v hp.ne']
  generalize v / 2 ^ quantum v = a at *
  generalize quantum v = e at *
  obtain ⟨hl, hu⟩ := roundEven_bounds hdiv
  rcases hcases with ⟨rfl, rfl⟩ | ⟨rfl, rfl, hpower⟩
  · refine mem_interval h.pos (by linarith) (by linarith) (fun ht => roundEven_tie ht hdiv)
      fun hm he => ?_
    have hle := hfull he
    rw [hm]
    push_cast at hle ⊢
    linarith
  · -- in the unit of the double the value is half as much
    rw [hpower] at hl hu
    push_cast at hl hu hlt
    have hmem : Mem (Decimal.interval (2 ^ 52) (e + 1)) (a / 2 * 2 ^ (e + 1)) := by
      refine mem_interval (by norm_num) ?_ ?_ (fun _ => rfl) fun _ _ => ?_
      all_goals
        push_cast
        linarith
    have hdouble : (2 : ℚ) ^ (e + 1) = 2 * 2 ^ e := by rw [add_comm, two_zpow_add, zpow_one]
    rwa [hdouble, ← mul_assoc, div_mul_cancel₀ a two_ne_zero] at hmem

/-! ## Grids with a point -/

section Grids

variable {i : Interval}

/-- If a point is in the interval, then so is a neighbour of the center. -/
theorem holds_beside {unit step : ℕ} (hl : i.low ≤ i.center) (hh : i.center < i.high)
    (hunit : 0 < unit) (hstep : 0 < step) (h : i.holds unit step n = true) :
    i.holds unit step (i.center * unit / step) = true ∨
      i.holds unit step (i.center * unit / step + 1) = true := by
  have hlow : i.low * unit ≤ i.center * unit := Nat.mul_le_mul_right unit hl
  have hhigh : i.center * unit < i.high * unit := Nat.mul_lt_mul_of_pos_right hh hunit
  have hbelow := Nat.div_mul_le_self (i.center * unit) step
  have habove : i.center * unit < (i.center * unit / step + 1) * step := by
    rw [mul_comm _ step]
    exact Nat.lt_mul_div_succ _ hstep
  generalize i.center * unit / step = b at hbelow habove ⊢
  unfold Interval.holds at h ⊢
  rcases Nat.lt_or_ge b n with hlt | hge
  · have hle : (b + 1) * step ≤ n * step := Nat.mul_le_mul_right step hlt
    right
    split_ifs at h ⊢ <;> simp only [Bool.and_eq_true, decide_eq_true_eq] at h ⊢ <;> omega
  · have hle : n * step ≤ b * step := Nat.mul_le_mul_right step hge
    left
    split_ifs at h ⊢ <;> simp only [Bool.and_eq_true, decide_eq_true_eq] at h ⊢ <;> omega

/-- A grid with a point in the interval has one beside the center. -/
theorem gridPoint?_isSome_of_mem (hl : i.low ≤ i.center) (hh : i.center < i.high)
    (h : Mem i (n * 10 ^ p)) : (i.gridPoint? tie p).isSome = true := by
  rw [← holds_iff] at h
  refine gridPoint?_isSome_of_holds rfl rfl (holds_beside hl hh ?_ ?_ h)
  · simp only [Nat.pow_eq]
    positivity
  · simp only [Nat.pow_eq]
    positivity

/-- The search stops at the first of its grids that has a point. -/
theorem search_spec {grids k : ℕ} (hk : k < grids)
    (h : (i.gridPoint? tie (p - k)).isSome = true) :
    ∃ j ≤ k, (i.search tie grids p).exponent = p - j ∧
      ∀ l < j, i.gridPoint? tie (p - l) = none := by
  induction grids generalizing p k with
  | zero => omega
  | succ grids ih =>
    unfold Interval.search
    split
    · next d hd => exact ⟨0, Nat.zero_le k, by simp, by simp⟩
    · next hnone =>
      obtain ⟨k, rfl⟩ : ∃ j, k = j + 1 := by
        refine ⟨k - 1, ?_⟩
        rcases k with _ | k
        · simp [hnone] at h
        · rfl
      rw [Nat.cast_succ, add_comm (k : ℤ), ← sub_sub] at h
      obtain ⟨j, hj, hexponent, hbefore⟩ := ih (Nat.lt_of_succ_lt_succ hk) h
      refine ⟨j + 1, Nat.succ_le_succ hj, by rw [hexponent]; push_cast; ring, fun l hl => ?_⟩
      rcases l with _ | l
      · simpa using hnone
      · have hnext := hbefore l (Nat.lt_of_succ_lt_succ hl)
        rwa [sub_sub, add_comm 1, ← Nat.cast_succ] at hnext

end Grids

/-! ## The shortest digits -/

/-- The search starts above the first digit of a double. -/
theorem two_zpow_le_ten {b : ℤ} (hl : -1074 ≤ b) (hu : b ≤ 1024) :
    (2 : ℚ) ^ b ≤ 10 ^ (b * 30103 / 100000 + 2) := by
  set e := b * 30103 / 100000 + 2 with he
  rcases le_or_gt 0 b with h | h
  · have h93 : (2 : ℚ) ^ (b * 93) ≤ 10 ^ (e * 93) := by
      calc (2 : ℚ) ^ (b * 93) = (2 ^ (93 : ℤ)) ^ b := by rw [← zpow_mul, mul_comm]
        _ ≤ (10 ^ (28 : ℤ)) ^ b := zpow_le_zpow_left₀ h (by norm_num) (by norm_num)
        _ = 10 ^ (28 * b) := (zpow_mul _ _ _).symm
        _ ≤ 10 ^ (e * 93) := zpow_le_zpow_right₀ (by norm_num) (by omega)
    rw [zpow_mul, zpow_mul] at h93
    exact (zpow_le_zpow_iff_left₀ (two_zpow_pos _).le (ten_zpow_pos e).le (by norm_num)).1 h93
  · have h103 : (2 : ℚ) ^ (b * 103) ≤ 10 ^ (e * 103) := by
      calc (2 : ℚ) ^ (b * 103) = (2 ^ (103 : ℤ)) ^ b := by rw [← zpow_mul, mul_comm]
        _ ≤ (10 ^ (31 : ℤ)) ^ b := zpow_le_zpow_of_nonpos (by norm_num) (by norm_num) h.le
        _ = 10 ^ (31 * b) := (zpow_mul _ _ _).symm
        _ ≤ 10 ^ (e * 103) := zpow_le_zpow_right₀ (by norm_num) (by omega)
    rw [zpow_mul, zpow_mul] at h103
    exact (zpow_le_zpow_iff_left₀ (two_zpow_pos _).le (ten_zpow_pos e).le (by norm_num)).1 h103

section Shortest

variable (tie) (h : Canonical m q) (hq : q ≤ maxExponent)
include h

theorem lt_first_of_mem (hq : q ≤ maxExponent) (hv : Mem (Decimal.interval m q) v) :
    v < 10 ^ firstGrid m q := by
  have hlog : m.log2 < 53 := (Nat.log2_lt h.pos.ne').2 h.lt
  have hbits : ((m + 1 : ℕ) : ℚ) ≤ 2 ^ ((m.log2 : ℤ) + 1) := by
    rw [← Nat.cast_succ, zpow_natCast]
    exact_mod_cast (Nat.lt_log2_self : m < 2 ^ (m.log2 + 1))
  have hleast := h.least
  unfold maxExponent at hq
  push_cast at hbits
  calc v ≤ (m + 1 / 2) * 2 ^ q := (mem_half h.pos hv).2.1
    _ < (m + 1) * 2 ^ q := mul_lt_mul_of_pos_right (by linarith) (two_zpow_pos q)
    _ ≤ 2 ^ ((m.log2 : ℤ) + 1) * 2 ^ q := mul_le_mul_of_nonneg_right hbits (two_zpow_pos q).le
    _ = 2 ^ (q + m.log2 + 1) := by rw [← two_zpow_add]; congr 1; ring
    _ ≤ 10 ^ firstGrid m q := two_zpow_le_ten (by omega) (by omega)

include hq

theorem shortest_spec : ∃ j : ℕ, j ≤ 23 ∧
    (Decimal.shortest tie m q).exponent = firstGrid m q - j ∧
    ∀ l < j, (Decimal.interval m q).gridPoint? tie (firstGrid m q - l) = none :=
  search_spec (show 23 < 24 by norm_num) (last_gridPoint? tie h hq)

/-- No number in the interval of a double is on a coarser grid than the shortest digits. -/
theorem le_exponent_shortest (hn : Mem (Decimal.interval m q) (n * 10 ^ p)) :
    p ≤ (Decimal.shortest tie m q).exponent := by
  obtain ⟨j, -, hexponent, hbefore⟩ := shortest_spec tie h hq
  have hpos : 0 < n := by
    refine Nat.pos_of_ne_zero fun h0 => ?_
    have := pos_of_mem h.pos hn
    rw [h0, Nat.cast_zero, zero_mul] at this
    exact lt_irrefl 0 this
  have hfirst : p < firstGrid m q := by
    refine (zpow_lt_zpow_iff_right₀ (by norm_num)).1 (lt_of_le_of_lt ?_ (lt_first_of_mem h hq hn))
    exact le_mul_of_one_le_left (ten_zpow_pos p).le (by exact_mod_cast hpos)
  by_contra hcoarse
  have hnone := hbefore (firstGrid m q - p).toNat (by omega)
  rw [show firstGrid m q - ((firstGrid m q - p).toNat : ℤ) = p by omega] at hnone
  have hsome : ((Decimal.interval m q).gridPoint? tie p).isSome = true :=
    gridPoint?_isSome_of_mem (Nat.le_of_succ_le (low_le_center q h.pos)) (center_lt_high m q) hn
  rw [hnone] at hsome
  cases hsome

/-- The step of the shortest digits is more than a tenth of a quarter unit. -/
theorem lt_ten_zpow_exponent :
    (2 : ℚ) ^ (q - 2) < 10 ^ ((Decimal.shortest tie m q).exponent + 1) := by
  obtain ⟨j, -, hexponent, hbefore⟩ := shortest_spec tie h hq
  rw [hexponent]
  rcases j with _ | j
  · have hone : (1 : ℚ) ≤ m := by exact_mod_cast h.pos
    calc (2 : ℚ) ^ (q - 2) ≤ 2 ^ q := zpow_le_zpow_right₀ one_le_two (by omega)
      _ ≤ m * 2 ^ q := le_mul_of_one_le_left (two_zpow_pos q).le hone
      _ < 10 ^ firstGrid m q := lt_first_of_mem h hq (mem_center q h.pos)
      _ ≤ 10 ^ (firstGrid m q - (0 : ℕ) + 1) := zpow_le_zpow_right₀ (by norm_num) (by omega)
  · by_contra hle
    have hnone := hbefore j (Nat.lt_succ_self j)
    have hfine : (10 : ℚ) ^ (firstGrid m q - j) ≤ 2 ^ (q - 2) := by
      rw [show firstGrid m q - j = firstGrid m q - (j + 1 : ℕ) + 1 by push_cast; ring]
      exact not_lt.1 hle
    have hsome : ((Decimal.interval m q).gridPoint? tie (firstGrid m q - j)).isSome = true :=
      gridPoint?_isSome (low_le_center q h.pos) (center_lt_high m q) hfine
    rw [hnone] at hsome
    cases hsome

/-- The shortest digits fit 64 bits. -/
theorem digits_shortest_lt : (Decimal.shortest tie m q).digits < 10 * 2 ^ 55 := by
  have hmem := mem_half h.pos (mem_shortest tie h hq)
  have hstep := lt_ten_zpow_exponent tie h hq
  have hm := h.half_le
  generalize Decimal.shortest tie m q = d at *
  have hp := ten_zpow_pos d.exponent
  have hlt : (d.digits : ℚ) * 10 ^ d.exponent < 10 * 2 ^ 55 * 10 ^ d.exponent := by
    calc (d.digits : ℚ) * 10 ^ d.exponent ≤ (m + 1 / 2) * 2 ^ q := hmem.2.1
      _ ≤ 2 ^ 53 * (4 * 2 ^ (q - 2)) := by
        rw [← two_zpow_eq_four]
        exact mul_le_mul_of_nonneg_right hm (two_zpow_pos q).le
      _ < 2 ^ 53 * (4 * 10 ^ (d.exponent + 1)) := by linarith
      _ = 10 * 2 ^ 55 * 10 ^ d.exponent := by
        rw [zpow_add_one₀ (by norm_num)]
        ring
  exact_mod_cast lt_of_mul_lt_mul_right hlt hp.le

theorem exponent_shortest_bounds :
    -346 ≤ (Decimal.shortest tie m q).exponent ∧ (Decimal.shortest tie m q).exponent ≤ 308 := by
  constructor
  · obtain ⟨j, hj, hexponent, -⟩ := shortest_spec tie h hq
    have hleast := h.least
    rw [hexponent, firstGrid]
    omega
  · have hmem := mem_shortest tie h hq
    have hpos := digits_pos_of_value (pos_of_mem h.pos hmem)
    have hpower : ((2 ^ 1024 : ℕ) : ℚ) < ((10 ^ 309 : ℕ) : ℚ) := Nat.cast_lt.2 (by decide +kernel)
    have hm := h.half_le
    refine Int.le_of_lt_add_one ((zpow_lt_zpow_iff_right₀ (show (1 : ℚ) < 10 by norm_num)).1 ?_)
    calc (10 : ℚ) ^ (Decimal.shortest tie m q).exponent ≤ value (Decimal.shortest tie m q) :=
          le_mul_of_one_le_left (ten_zpow_pos _).le (by exact_mod_cast hpos)
      _ ≤ (m + 1 / 2) * 2 ^ q := (mem_half h.pos hmem).2.1
      _ ≤ 2 ^ (53 : ℤ) * 2 ^ (971 : ℤ) := by
        refine mul_le_mul (by exact_mod_cast hm) ?_ (two_zpow_pos q).le (two_zpow_pos 53).le
        exact zpow_le_zpow_right₀ one_le_two hq
      _ = ((2 ^ 1024 : ℕ) : ℚ) := by
        rw [← two_zpow_add, Nat.cast_pow, Nat.cast_ofNat, ← zpow_natCast]
        rfl
      _ < ((10 ^ 309 : ℕ) : ℚ) := hpower
      _ = 10 ^ ((308 : ℤ) + 1) := (ten_zpow_natCast 309).symm

end Shortest

end ItemBudget.Double
