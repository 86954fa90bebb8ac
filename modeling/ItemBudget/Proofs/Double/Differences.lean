import ItemBudget.Proofs.Double.Hundredths

/-!
# Differences in hundredths

A double is rounded to less than nothing exactly when it is below -0.005: hundred times 0.005 is
rounded to a half, and hundred times the next double is not (`round2_lt_zero_iff`). Different doubles
in hundredths are further apart than that, whatever their size (`hundredth_gap`): small ones because
they are rounded by little, and great ones because they are whole numbers of a unit. So the
difference of two such doubles is rounded to less than nothing when it is negative (`sub_lt_of_lt`).
-/

namespace ItemBudget.Double

variable {x y : Float} {v : ℚ}

/-! ## Half a hundredth -/

theorem stands_half_hundredth : Stands 0.005 (5764607523034235 * 2 ^ (-60 : ℤ)) :=
  .inr ⟨5764607523034235, -60, by norm_num, rfl, by norm_num⟩

theorem isFinite_neg_half_hundredth : (-0.005 : Float).isFinite = true :=
  (neg_finite stands_half_hundredth.isFinite).1

theorem lt_neg_half_hundredth_iff (hx : x.isFinite = true) :
    x < -0.005 ↔ toRat x < -toRat 0.005 := by
  rw [lt_iff_toRat hx isFinite_neg_half_hundredth,
    (neg_finite stands_half_hundredth.isFinite).2]

/-- A double that is greater than 0.005 is greater by a unit of it. -/
theorem next_half_hundredth (h : toRat 0.005 < toRat x) :
    5764607523034236 * 2 ^ (-60 : ℤ) ≤ toRat x := by
  rw [stands_half_hundredth.toRat_eq] at h
  obtain ⟨n, e, hn, -, heq⟩ := exists_units x
  rw [heq] at h ⊢
  rcases lt_or_ge e (-60) with he | he
  · -- a finer unit reaches 2 ^ (-8) only
    exfalso
    have hcast : (n : ℚ) ≤ 2 ^ 53 := by
      have hint : n ≤ 2 ^ 53 := by omega
      exact_mod_cast hint
    have hunit : (2 : ℚ) ^ e ≤ 2 ^ (-61 : ℤ) := zpow_le_zpow_right₀ one_le_two (by omega)
    have hsmall : (n : ℚ) * 2 ^ e ≤ 2 ^ 53 * 2 ^ (-61 : ℤ) :=
      mul_le_mul hcast hunit (two_zpow_pos e).le (by norm_num)
    norm_num at h hsmall
    linarith
  · obtain ⟨k, hk⟩ := finer_units n he
    rw [hk] at h ⊢
    have hint : (5764607523034235 : ℤ) < k := by
      exact_mod_cast lt_of_mul_lt_mul_right h (two_zpow_pos _).le
    refine mul_le_mul_of_nonneg_right ?_ (two_zpow_pos _).le
    exact_mod_cast Int.add_one_le_of_lt hint

/-- Hundred times the double 0.005 is rounded to a half, and hundred times a greater one above. -/
theorem half_lt_iff (x : Float) :
    1 / 2 < nearSigned (toRat x * 100) ↔ toRat 0.005 < toRat x := by
  constructor
  · intro h
    by_contra hle
    rw [stands_half_hundredth.toRat_eq, not_lt] at hle
    have hhalf : nearSigned (5764607523034235 * 2 ^ (-60 : ℤ) * 100) = 1 / 2 := by
      rw [nearSigned_of_nonneg (by norm_num),
        near_of_mem (m := 2 ^ 52) (q := -53) (by constructor <;> norm_num)]
      · norm_num
      · unfold Mem Decimal.interval
        norm_num
    have hmono := nearSigned_mono (mul_le_mul_of_nonneg_right hle (show (0 : ℚ) ≤ 100 by norm_num))
    rw [hhalf] at hmono
    exact absurd h (not_lt.2 hmono)
  · intro h
    have habove : nearSigned (5764607523034236 * 2 ^ (-60 : ℤ) * 100) =
        (2 ^ 52 + 1 : ℕ) * 2 ^ (-53 : ℤ) := by
      rw [nearSigned_of_nonneg (by norm_num),
        near_of_mem (m := 2 ^ 52 + 1) (q := -53) (by constructor <;> norm_num)]
      unfold Mem Decimal.interval
      norm_num
    have hmono := nearSigned_mono (mul_le_mul_of_nonneg_right (next_half_hundredth h)
      (show (0 : ℚ) ≤ 100 by norm_num))
    norm_num at habove hmono ⊢
    linarith

theorem nearSigned_neg_iff_of_int (k : ℤ) : nearSigned (k / 100) < 0 ↔ k < 0 := by
  constructor
  · intro h
    by_contra hk
    have hcast : (0 : ℚ) ≤ k := by exact_mod_cast not_lt.1 hk
    have hmono := nearSigned_mono (div_nonneg hcast (show (0 : ℚ) ≤ 100 by norm_num))
    rw [nearSigned_zero] at hmono
    linarith
  · intro h
    have hcast : (k : ℚ) ≤ -1 := by exact_mod_cast Int.le_sub_one_of_lt h
    have hmono := nearSigned_mono (show (k : ℚ) / 100 ≤ -(1 / 128) by linarith)
    have hkeep := nearSigned_bits (n := -1) (q := -7) (by norm_num) (by norm_num)
    norm_num at hkeep
    rw [hkeep] at hmono
    linarith

/-- **A double is rounded to less than zero** exactly when it is below minus half a hundredth. -/
theorem round2_lt_zero_iff (x : Float) : round2 x < 0.0 ↔ x < -0.005 := by
  cases hx : x.isFinite with
  | false =>
    rw [round2_of_not_isFinite hx]
    rcases unpack_of_not_isFinite hx with hu | ⟨s, hu⟩
    · exact iff_of_false (not_lt_of_notANumber hu) (not_lt_of_notANumber hu)
    · rw [infinity_lt_iff hu stands_zero.isFinite, infinity_lt_iff hu isFinite_neg_half_hundredth]
  | true =>
    obtain ⟨hneg, hnegeq⟩ := neg_finite hx
    have hbelow : x < -0.005 ↔ nearSigned (toRat x * 100) < -(1 / 2) := by
      rw [lt_neg_half_hundredth_iff hx, ← neg_neg (toRat x), ← hnegeq, neg_lt_neg_iff,
        ← half_lt_iff, hnegeq, neg_neg, neg_mul, nearSigned_neg]
      exact lt_neg
    rw [hbelow]
    rcases lt_or_ge |toRat x * 100| overflow with hlt | hle
    · obtain ⟨hy, hyeq⟩ := (rounds_mul_hundred hx).inRange hlt
      obtain ⟨hround, heq⟩ := toRat_round2 hx hy
      rw [lt_iff_toRat hround stands_zero.isFinite, stands_zero.toRat_eq, heq,
        nearSigned_neg_iff_of_int, Int.floor_lt, hyeq, Int.cast_zero]
      constructor <;> intro h <;> linarith
    · have hone := one_lt_overflow
      rw [infinity_lt_iff (round2_of_infinite hx ((rounds_mul_hundred hx).beyond hle))
        stands_zero.isFinite]
      split_ifs with hv
      · have hmono := nearSigned_mono (show toRat x * 100 ≤ (-1 : ℤ) by
          rw [abs_of_neg hv] at hle
          push_cast
          linarith)
        rw [nearSigned_intCast (by norm_num)] at hmono
        push_cast at hmono
        exact iff_of_true rfl (by linarith)
      · have hmono := nearSigned_mono (not_lt.1 hv)
        rw [nearSigned_zero] at hmono
        exact iff_of_false nofun (by linarith)

/-! ## Distances between hundredths -/

/-- The least distance of two different doubles in hundredths, from below. -/
def hundredthGap : ℚ := 3 / 500

/-- A double for less than `2 ^ 45` is within half of the spacing there, `2 ^ (-8)`. -/
theorem near_hundredths_close {n : ℕ} (hn : (n : ℚ) / 100 < 2 ^ 45) :
    (n : ℚ) / 100 - 1 / 512 ≤ near (n / 100) ∧ near (n / 100) ≤ (n : ℚ) / 100 + 1 / 512 := by
  have hbound := near_close (v := (n : ℚ) / 100) (k := -8) (by norm_num) (by positivity)
    (by norm_num; exact hn)
  norm_num at hbound ⊢
  exact hbound

theorem near_hundredth_gap {i j : ℕ} (hij : i < j) (h : near (i / 100) < near (j / 100)) :
    near (i / 100) + hundredthGap ≤ near (j / 100) := by
  have hnext : (i : ℚ) + 1 ≤ j := by exact_mod_cast hij
  unfold hundredthGap
  rcases lt_or_ge ((j : ℚ) / 100) (2 ^ 45) with hj | hj
  · obtain ⟨-, hi⟩ := near_hundredths_close (n := i) (by linarith)
    obtain ⟨hj, -⟩ := near_hundredths_close hj
    linarith
  · rcases lt_or_ge ((i : ℚ) / 100) (2 ^ 45) with hi | hi
    · -- the double `2 ^ 45` lies between them
      have hmid : (2 : ℚ) ^ 45 ≤ near (j / 100) := by
        have hmono := near_mono (by positivity) hj
        have hkeep := near_natCast (n := 2 ^ 45) (by norm_num)
        rw [Nat.cast_pow, Nat.cast_ofNat] at hkeep
        rwa [hkeep] at hmono
      have hnat : (i : ℚ) + 1 ≤ 100 * 2 ^ 45 := by
        rw [div_lt_iff₀ (by norm_num)] at hi
        have hlt : i < 2 ^ 45 * 100 := by exact_mod_cast hi
        exact_mod_cast (show i + 1 ≤ 100 * 2 ^ 45 by omega)
      have hbelow := (near_hundredths_close hi).2
      linarith
    · -- both are whole numbers of a unit above the gap
      obtain ⟨m, hm⟩ := near_units (v := (i : ℚ) / 100) (k := -7) (by norm_num; exact hi)
      obtain ⟨n, hn⟩ := near_units (v := (j : ℚ) / 100) (k := -7) (by norm_num; exact hj)
      rw [hm, hn] at h ⊢
      have hlt : m + 1 ≤ n := by exact_mod_cast lt_of_mul_lt_mul_right h (two_zpow_pos (-7)).le
      have hcast : (m : ℚ) + 1 ≤ n := by exact_mod_cast hlt
      norm_num
      linarith

/-- **Different doubles in hundredths are more than half a hundredth apart.** -/
theorem hundredth_gap {i j : ℤ} (h : nearSigned (i / 100) < nearSigned (j / 100)) :
    nearSigned (i / 100) + hundredthGap ≤ nearSigned (j / 100) := by
  have hij : i < j := by
    by_contra hle
    have hcast : (j : ℚ) ≤ i := by exact_mod_cast not_lt.1 hle
    exact absurd h (not_lt.2 (nearSigned_mono (by linarith)))
  have hnat : ∀ n : ℕ, nearSigned ((n : ℤ) / 100) = near (n / 100) := by
    intro n
    rw [Int.cast_natCast, nearSigned_of_nonneg (by positivity)]
  have hswap : ∀ n : ℤ, nearSigned ((-n : ℤ) / 100) = -nearSigned (n / 100) := by
    intro n
    rw [Int.cast_neg, neg_div, nearSigned_neg]
  rcases le_or_gt 0 i with hi | hi
  · obtain ⟨m, rfl⟩ := Int.eq_ofNat_of_zero_le hi
    obtain ⟨n, rfl⟩ := Int.eq_ofNat_of_zero_le (hi.trans hij.le)
    rw [hnat, hnat] at h ⊢
    exact near_hundredth_gap (by omega) h
  · rcases le_or_gt j 0 with hj | hj
    · -- the mirror image
      obtain ⟨m, hm⟩ := Int.eq_ofNat_of_zero_le (neg_nonneg.2 hj)
      obtain ⟨n, hn⟩ := Int.eq_ofNat_of_zero_le (neg_nonneg.2 (hij.le.trans hj))
      have hgap := near_hundredth_gap (i := m) (j := n) (by omega) (by
        rw [← hnat, ← hnat, ← hm, ← hn, hswap, hswap]
        exact neg_lt_neg h)
      rw [← hnat, ← hnat, ← hm, ← hn, hswap, hswap] at hgap
      linarith
    · have hbelow := (nearSigned_neg_iff_of_int i).2 hi
      have hcast : (1 : ℚ) ≤ j := by exact_mod_cast hj
      have hmono := nearSigned_mono (show ((1 / 128 : ℚ)) ≤ j / 100 by linarith)
      have hkeep := nearSigned_bits (n := 1) (q := -7) (by norm_num) (by norm_num)
      norm_num at hkeep
      rw [hkeep] at hmono
      unfold hundredthGap
      linarith

/-- A double is below minus half a hundredth when it is the distance of two in hundredths. -/
theorem sub_lt_of_lt (hx : InHundredths x) (hy : InHundredths y) (h : x < y) : x - y < -0.005 := by
  obtain ⟨hxf, i, hi⟩ := hx
  obtain ⟨hyf, j, hj⟩ := hy
  rw [lt_iff_toRat hxf hyf, hi, hj] at h
  have hgap := hundredth_gap h
  rw [← hi, ← hj, hundredthGap] at hgap
  have hround := rounds_sub hxf hyf
  rcases lt_or_ge |toRat x - toRat y| overflow with hlt | hle
  · obtain ⟨hd, hdeq⟩ := hround.inRange hlt
    have hmono := nearSigned_mono (show toRat x - toRat y ≤ (-45 : ℤ) * 2 ^ (-13 : ℤ) by
      norm_num
      linarith)
    rw [nearSigned_bits (by norm_num) (by norm_num)] at hmono
    rw [lt_neg_half_hundredth_iff hd, hdeq, stands_half_hundredth.toRat_eq]
    norm_num at hmono ⊢
    linarith
  · have hbeyond := hround.beyond hle
    rw [if_pos (by linarith)] at hbeyond
    exact (infinity_lt_iff hbeyond isFinite_neg_half_hundredth).2 rfl

/-! ## Rounded differences -/

theorem lt_of_sub_lt (hx : x.isFinite = true) (hy : y.isFinite = true)
    (h : x - y < -0.005) : x < y := by
  have hround := rounds_sub hx hy
  rcases lt_or_ge |toRat x - toRat y| overflow with hlt | hle
  · obtain ⟨hd, hdeq⟩ := hround.inRange hlt
    rw [lt_neg_half_hundredth_iff hd, stands_half_hundredth.toRat_eq, hdeq] at h
    rw [lt_iff_toRat hx hy]
    by_contra hge
    have hmono := nearSigned_mono (sub_nonneg.2 (not_lt.1 hge))
    rw [nearSigned_zero] at hmono
    norm_num at h
    linarith
  · have hbeyond := hround.beyond hle
    split_ifs at hbeyond with hneg
    · rw [lt_iff_toRat hx hy]
      linarith
    · exact nomatch (infinity_lt_iff hbeyond isFinite_neg_half_hundredth).1 h

/-- The difference of a double and itself is rounded to zero. -/
theorem round2_sub_self (hx : x.isFinite = true) (hy : y.isFinite = true)
    (h : toRat x = toRat y) : (round2 (x - y) == 0.0) = true := by
  have hsub := rounds_sub hx hy
  rw [h, sub_self] at hsub
  obtain ⟨hd, hdeq⟩ := hsub.inRange (by rw [abs_zero]; exact overflow_pos)
  rw [nearSigned_zero] at hdeq
  have hscaled := rounds_mul_hundred hd
  rw [hdeq, zero_mul] at hscaled
  obtain ⟨hs, hseq⟩ := hscaled.inRange (by rw [abs_zero]; exact overflow_pos)
  rw [nearSigned_zero] at hseq
  obtain ⟨hround, heq⟩ := toRat_round2 hd hs
  rw [beq_iff_toRat hround stands_zero.isFinite, stands_zero.toRat_eq, heq, hseq]
  norm_num [nearSigned_zero]

theorem round2_le_zero (hx : x.isFinite = true) (h : toRat x ≤ 0) : round2 x ≤ 0.0 := by
  have hscaled := rounds_mul_hundred hx
  rcases lt_or_ge |toRat x * 100| overflow with hlt | hle
  · obtain ⟨hs, hseq⟩ := hscaled.inRange hlt
    obtain ⟨hround, heq⟩ := toRat_round2 hx hs
    have hsmall := nearSigned_mono (show toRat x * 100 ≤ 0 by linarith)
    rw [nearSigned_zero, ← hseq] at hsmall
    have hfloor : ⌊toRat (x * 100.0) + 1 / 2⌋ ≤ 0 :=
      Int.lt_add_one_iff.1 (Int.floor_lt.2 (by push_cast; linarith))
    have hcast : ((⌊toRat (x * 100.0) + 1 / 2⌋ : ℤ) : ℚ) / 100 ≤ 0 :=
      div_nonpos_of_nonpos_of_nonneg (by exact_mod_cast hfloor) (by norm_num)
    rw [le_iff_toRat hround stands_zero.isFinite, stands_zero.toRat_eq, heq,
      ← nearSigned_zero]
    exact nearSigned_mono hcast
  · have hbeyond := hscaled.beyond hle
    have hne : toRat x * 100 ≠ 0 := by
      intro h0
      rw [h0, abs_zero] at hle
      exact absurd overflow_pos (not_lt.2 hle)
    rw [if_pos (lt_of_le_of_ne (by linarith) hne)] at hbeyond
    exact (infinity_le_iff (round2_of_infinite hx hbeyond) stands_zero.isFinite).2 rfl

theorem round2_sub_le_zero (hx : x.isFinite = true) (hy : y.isFinite = true) (h : x < y) :
    round2 (x - y) ≤ 0.0 := by
  have hround := rounds_sub hx hy
  rw [lt_iff_toRat hx hy] at h
  rcases lt_or_ge |toRat x - toRat y| overflow with hlt | hle
  · obtain ⟨hd, hdeq⟩ := hround.inRange hlt
    refine round2_le_zero hd ?_
    rw [hdeq, ← nearSigned_zero]
    exact nearSigned_mono (by linarith)
  · have hbeyond := hround.beyond hle
    rw [if_pos (by linarith)] at hbeyond
    have hinfinite : (x - y).isFinite = false := by
      rw [eq_infinity hbeyond]
      exact isFinite_infinity _
    rw [round2_of_not_isFinite hinfinite]
    exact (infinity_le_iff hbeyond stands_zero.isFinite).2 rfl

end ItemBudget.Double
