import ItemBudget.Proofs.Double.Arithmetic
import ItemBudget.Time.Duration

/-!
# Durations and seconds

A short duration is so many seconds, up to two roundings (`stands_toSeconds`, `seconds_bounds`), and
a longer one is no fewer seconds (`atLeast_toSeconds`). The other way a number of seconds becomes the
nearest whole number of nanoseconds (`ofSeconds?_eq`).
-/

namespace ItemBudget.Time

open Double

/-! ## A duration in seconds -/

/-- A duration in seconds, rounded as doubles are. -/
def seconds (d : ℕ) : ℚ :=
  near ((d / nanosPerSecond : ℕ) + near ((d % nanosPerSecond : ℕ) / nanosPerSecond))

/-- The duration is so short that its whole seconds are a double. -/
def Short (d : ℕ) : Prop := d / nanosPerSecond < 2 ^ 52

theorem fraction_lt (d : ℕ) :
    near ((d % nanosPerSecond : ℕ) / nanosPerSecond) ≤ 1 := by
  have hlt : ((d % nanosPerSecond : ℕ) : ℚ) / nanosPerSecond ≤ 1 := by
    rw [div_le_one (by norm_num [nanosPerSecond])]
    exact_mod_cast (Nat.mod_lt d (by norm_num [nanosPerSecond])).le
  rw [← near_one]
  exact near_mono (by positivity) hlt

theorem seconds_le (d : ℕ) : seconds d ≤ near ((d / nanosPerSecond : ℕ) + 1) := by
  have hfrac := fraction_lt d
  refine near_mono ?_ (by linarith)
  have hnn := near_nonneg ((d % nanosPerSecond : ℕ) / nanosPerSecond)
  positivity

theorem stands_nanosPerSecond : Stands (Float.ofNat nanosPerSecond) nanosPerSecond :=
  stands_ofNat (by norm_num [nanosPerSecond])

theorem near_lt_limit {v : ℚ} (hv : 0 ≤ v) (h : v ≤ 2 ^ 100) : near v < 2 ^ (1024 : ℤ) := by
  calc near v ≤ 2 ^ 100 := near_le_two_pow hv h
    _ = 2 ^ (100 : ℤ) := by norm_cast
    _ < 2 ^ (1024 : ℤ) := zpow_lt_zpow_right₀ one_lt_two (by norm_num)

theorem stands_fraction (d : ℕ) :
    Stands (Float.ofNat (d % nanosPerSecond) / Float.ofNat nanosPerSecond)
      (near ((d % nanosPerSecond : ℕ) / nanosPerSecond)) := by
  have hlt : d % nanosPerSecond < nanosPerSecond := Nat.mod_lt d (by norm_num [nanosPerSecond])
  have hle : d % nanosPerSecond ≤ 2 ^ 53 := by
    have hn : nanosPerSecond ≤ 2 ^ 53 := by norm_num [nanosPerSecond]
    omega
  rw [(stands_ofNat hle).div stands_nanosPerSecond (by norm_num [nanosPerSecond])]
  refine stands_nearest (by positivity) (near_lt_limit (by positivity) ?_)
  have hone : ((d % nanosPerSecond : ℕ) : ℚ) / nanosPerSecond ≤ 1 := by
    rw [div_le_one (by norm_num [nanosPerSecond])]
    exact_mod_cast hlt.le
  linarith

theorem stands_toSeconds {d : ℕ} (h : Short d) : Stands (toSeconds d) (seconds d) := by
  have hsum := (stands_ofNat (n := d / nanosPerSecond) (by unfold Short at h; omega)).add
    (stands_fraction d)
  have hnn := near_nonneg ((d % nanosPerSecond : ℕ) / nanosPerSecond)
  have hfrac := fraction_lt d
  have hwhole : ((d / nanosPerSecond : ℕ) : ℚ) + 1 ≤ 2 ^ 53 := by
    unfold Short at h
    exact_mod_cast (by omega : d / nanosPerSecond + 1 ≤ 2 ^ 53)
  unfold toSeconds
  rw [hsum]
  exact stands_nearest (by positivity) (near_lt_limit (by positivity) (by linarith))

/-- A longer time has no fewer seconds. -/
theorem atLeast_toSeconds {d e : ℕ} (hd : Short d) (h : d ≤ e) :
    AtLeast (seconds d) (toSeconds e) := by
  have hwhole : AtLeast (near (e / nanosPerSecond : ℕ)) (Float.ofNat (e / nanosPerSecond)) := by
    rw [ofNat_eq_nearest]
    exact atLeast_nearest (Nat.cast_nonneg _)
  have hnn := near_nonneg ((e % nanosPerSecond : ℕ) / nanosPerSecond)
  have hnn' := near_nonneg ((d % nanosPerSecond : ℕ) / nanosPerSecond)
  have hsum := hwhole.add (stands_fraction e).atLeast (near_nonneg _) hnn
  refine hsum.mono ?_
  rcases (Nat.div_le_div_right h : d / nanosPerSecond ≤ e / nanosPerSecond).lt_or_eq with hlt | heq
  · -- the seconds of `d` are at most the next whole second, which is a double
    have hnext : near ((d / nanosPerSecond : ℕ) + 1) = (d / nanosPerSecond : ℕ) + 1 := by
      exact_mod_cast near_natCast (n := d / nanosPerSecond + 1) (by unfold Short at hd; omega)
    have hcast : ((d / nanosPerSecond : ℕ) : ℚ) + 1 ≤ (e / nanosPerSecond : ℕ) := by
      exact_mod_cast hlt
    have hle : ((d / nanosPerSecond : ℕ) : ℚ) + 1 ≤ near (e / nanosPerSecond : ℕ) := by
      rw [← hnext]
      exact near_mono (by positivity) hcast
    refine (seconds_le d).trans (near_mono (by positivity) ?_)
    linarith
  · have hkeep : near ((d / nanosPerSecond : ℕ) : ℚ) = (d / nanosPerSecond : ℕ) :=
      near_natCast (by unfold Short at hd; omega)
    have hmod : d % nanosPerSecond ≤ e % nanosPerSecond := by
      have hd' := Nat.div_add_mod d nanosPerSecond
      have he' := Nat.div_add_mod e nanosPerSecond
      rw [← heq] at he'
      omega
    have hfrac : near ((d % nanosPerSecond : ℕ) / nanosPerSecond)
        ≤ near ((e % nanosPerSecond : ℕ) / nanosPerSecond) := by
      refine near_mono (by positivity) (div_le_div_of_nonneg_right ?_ (by positivity))
      exact_mod_cast hmod
    unfold seconds
    rw [← heq, hkeep]
    exact near_mono (by positivity) (by linarith)

theorem seconds_bounds (d : ℕ) :
    d / nanosPerSecond * (1 - roundoff) ^ 2 ≤ seconds d ∧
      seconds d ≤ d / nanosPerSecond * (1 + roundoff) ^ 2 := by
  have hsplit : (d : ℚ) / nanosPerSecond
      = (d / nanosPerSecond : ℕ) + ((d % nanosPerSecond : ℕ) : ℚ) / nanosPerSecond := by
    rw [div_eq_iff (by norm_num [nanosPerSecond]), add_mul, div_mul_cancel₀ _
      (by norm_num [nanosPerSecond])]
    exact_mod_cast (Nat.div_add_mod' d nanosPerSecond).symm
  have hfrac : Normal (((d % nanosPerSecond : ℕ) : ℚ) / nanosPerSecond) := by
    rcases Nat.eq_zero_or_pos (d % nanosPerSecond) with h | h
    · left
      rw [h, Nat.cast_zero, zero_div]
    · apply normal_of_le
      have hone : (1 : ℚ) ≤ (d % nanosPerSecond : ℕ) := by exact_mod_cast h
      calc (1 : ℚ) / 2 ^ 200 ≤ 1 / nanosPerSecond := by norm_num [nanosPerSecond]
        _ ≤ _ := div_le_div_of_nonneg_right hone (by positivity)
  obtain ⟨hl, hu⟩ := near_bounds hfrac
  have hwhole : (0 : ℚ) ≤ (d / nanosPerSecond : ℕ) := Nat.cast_nonneg _
  have hnn : 0 ≤ ((d % nanosPerSecond : ℕ) : ℚ) / nanosPerSecond := by positivity
  have hge : (d : ℚ) / nanosPerSecond * (1 - roundoff)
      ≤ (d / nanosPerSecond : ℕ) + near ((d % nanosPerSecond : ℕ) / nanosPerSecond) := by
    rw [hsplit]
    unfold roundoff at *
    nlinarith
  have hsum : Normal ((d / nanosPerSecond : ℕ) + near ((d % nanosPerSecond : ℕ) / nanosPerSecond)) := by
    rcases Nat.eq_zero_or_pos d with rfl | hd
    · left
      simp [near_zero]
    · apply normal_of_le
      refine le_trans ?_ hge
      have hone : (1 : ℚ) ≤ d := by exact_mod_cast hd
      unfold roundoff nanosPerSecond
      norm_num
      linarith
  obtain ⟨hl', hu'⟩ := near_bounds hsum
  unfold seconds
  rw [hsplit] at hge ⊢
  unfold roundoff at *
  constructor
  · nlinarith
  · nlinarith

theorem near_nano : 1 / 2 ^ 30 < near (1 / 1000000000) ∧ near (1 / 1000000000) < 1 / 2 ^ 29 := by
  have hb := near_bounds (v := 1 / 1000000000) (normal_of_le (by norm_num))
  unfold roundoff at hb
  constructor
  · refine lt_of_lt_of_le ?_ hb.1
    norm_num
  · refine lt_of_le_of_lt hb.2 ?_
    norm_num

/-- A nanosecond after a number of seconds can be told from that number by a roundoff, as long as a
unit of doubles is less than two nanoseconds. -/
theorem le_seconds_past {s : ℕ} (hs : s < 2 ^ 24) :
    s * (1 + roundoff) ≤ seconds (s * nanosPerSecond + 1) := by
  have hsplit : seconds (s * nanosPerSecond + 1) = near (s + near (1 / 1000000000)) := by
    have hdiv : (s * nanosPerSecond + 1) / nanosPerSecond = s := by unfold nanosPerSecond; omega
    have hmod : (s * nanosPerSecond + 1) % nanosPerSecond = 1 := by unfold nanosPerSecond; omega
    rw [seconds, hdiv, hmod]
    norm_num [nanosPerSecond]
  obtain ⟨hl, hu⟩ := near_nano
  rw [hsplit]
  rcases Nat.lt_or_ge s (2 ^ 23) with h | h
  · have hkeep := near_bits (n := s * 2 ^ 30 + 1) (q := -30) (by omega) (by norm_num)
    have heq : ((s * 2 ^ 30 + 1 : ℕ) : ℚ) * 2 ^ (-30 : ℤ) = s + 1 / 2 ^ 30 := by
      push_cast
      norm_num
      ring
    rw [heq] at hkeep
    have hmono : near (s + 1 / 2 ^ 30) ≤ near (s + near (1 / 1000000000)) :=
      near_mono (by positivity) (by linarith)
    rw [hkeep] at hmono
    refine le_trans ?_ hmono
    have hcast : (s : ℚ) ≤ 2 ^ 23 := by exact_mod_cast h.le
    unfold roundoff
    linarith
  · -- more than half a unit past a whole second, which is an even double
    have hc : Canonical (s * 2 ^ 29 + 1) (-29) :=
      ⟨by omega, by omega, by norm_num, .inl (by omega)⟩
    have hunit : (2 : ℚ) ^ (-29 : ℤ) = 1 / 2 ^ 29 := by norm_num
    have hnear : near (s + near (1 / 1000000000)) = (s * 2 ^ 29 + 1 : ℕ) * 2 ^ (-29 : ℤ) := by
      refine near_of_close hc ?_ ?_ fun hm => by omega
      · rw [hunit]
        push_cast
        linarith
      · rw [hunit]
        push_cast
        linarith
    rw [hnear]
    have hcast : (s : ℚ) ≤ 2 ^ 24 := by exact_mod_cast hs.le
    push_cast
    unfold roundoff
    norm_num
    linarith
/-! ## Seconds as a duration -/

theorem ofSeconds?_eq {x : Float} {v : ℚ} (h : Stands x v) (hlt : v < 2 ^ 64) :
    ofSeconds? x = some (roundEven (v * nanosPerSecond)) := by
  obtain ⟨m, e, hx, rfl⟩ := h.reading
  have hvalue := cast_div_two_pow m e
  have hunit : 0 < Nat.pow 2 (-e).toNat := Nat.pow_pos two_pos
  unfold ofSeconds?
  rw [hx]
  dsimp only
  generalize Nat.pow 2 (-e).toNat = unit at hvalue hunit ⊢
  generalize m * Nat.pow 2 e.toNat = scaled at hvalue ⊢
  rw [← hvalue] at hlt ⊢
  have hrange : scaled < secondsLimit * unit := by
    rw [div_lt_iff₀ (by exact_mod_cast hunit)] at hlt
    exact_mod_cast hlt
  have hin : ((false && decide (m ≠ 0)) || decide (secondsLimit * unit ≤ scaled)) = false := by
    simpa using hrange
  rw [hin, if_neg Bool.false_ne_true, divNearest_eq _ hunit, Nat.cast_mul, mul_div_right_comm]

end ItemBudget.Time
