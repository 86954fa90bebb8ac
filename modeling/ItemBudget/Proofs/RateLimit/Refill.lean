import ItemBudget.Proofs.Time.Seconds
import ItemBudget.RateLimit.Limiter

/-!
# What a refill adds

The tokens of a bucket as a rational. `Holds l b τ` says that a bucket has the capacity and the rate
of a limit and exactly `τ` tokens, no more than the capacity; refilling and taking a token keep this.
Over a time a refill adds `gain`, the rate times the seconds, each rounded (`Holds.refill_eq`), and
over a longer time it adds no less (`Holds.refill_ge`).
-/

namespace ItemBudget.RateLimit

open Double Time

/-! ## Limits -/

/-- The numbers of a limit are in their range. -/
structure Limit.InRange (l : Limit) : Prop where
  requests : l.requests < 2 ^ 32
  perSeconds : l.perSeconds < 2 ^ 32

/-- The rate of a limit, rounded as doubles are. -/
def Limit.pace (l : Limit) : ℚ := near (l.requests / l.span)

/-- The tokens of a nanosecond. -/
def Limit.perNano (l : Limit) : ℚ := l.pace / nanosPerSecond

/-- The tokens that come in a time, rounded as doubles are. -/
def Limit.gain (l : Limit) (d : ℕ) : ℚ := near (seconds d * l.pace)

namespace Limit

variable {l : Limit}

theorem one_le_span (l : Limit) : 1 ≤ l.span := le_max_right _ _

theorem InRange.span_lt (h : l.InRange) : l.span < 2 ^ 32 := by
  have hp := h.perSeconds
  unfold span
  omega

theorem InRange.ratio_le (h : l.InRange) : (l.requests : ℚ) / l.span ≤ 2 ^ 32 := by
  have hs : (1 : ℚ) ≤ l.span := by exact_mod_cast l.one_le_span
  have hr : (l.requests : ℚ) ≤ 2 ^ 32 := by exact_mod_cast h.requests.le
  exact (div_le_self (Nat.cast_nonneg _) hs).trans hr

theorem InRange.stands_requests (h : l.InRange) :
    Stands (Float.ofNat l.requests) l.requests := by
  have hr := h.requests
  exact stands_ofNat (by omega)

theorem window_eq (l : Limit) : l.window = l.span * 1000000000 := rfl

theorem InRange.short (h : l.InRange) {d : ℕ} (hd : d ≤ 2 * l.window) : Short d := by
  have hspan := h.span_lt
  rw [window_eq] at hd
  unfold Short nanosPerSecond
  omega

theorem stands_rate (h : l.InRange) : Stands l.rate l.pace := by
  have hs := h.span_lt
  have hpos : (0 : ℚ) < l.span := by exact_mod_cast l.one_le_span
  have hratio := h.ratio_le
  unfold rate
  rw [h.stands_requests.div (stands_ofNat (by omega)) hpos]
  exact stands_nearest (by positivity) (near_lt_limit (by positivity) (by linarith))

theorem pace_nonneg (l : Limit) : 0 ≤ l.pace := near_nonneg _

theorem gain_nonneg (l : Limit) (d : ℕ) : 0 ≤ l.gain d := near_nonneg _

theorem gain_zero (l : Limit) : l.gain 0 = 0 := by
  have h : seconds 0 = 0 := by simp [seconds, near_zero]
  rw [gain, h, zero_mul, near_zero]

theorem pace_bounds (h : l.InRange) :
    l.requests / l.span * (1 - roundoff) ≤ l.pace ∧
      l.pace ≤ l.requests / l.span * (1 + roundoff) := by
  refine near_bounds ?_
  rcases Nat.eq_zero_or_pos l.requests with h0 | h0
  · left
    rw [h0, Nat.cast_zero, zero_div]
  · apply normal_of_le
    have hr : (1 : ℚ) ≤ l.requests := by exact_mod_cast h0
    have hs : (l.span : ℚ) ≤ 2 ^ 32 := by exact_mod_cast h.span_lt.le
    have hpos : (0 : ℚ) < l.span := by exact_mod_cast l.one_le_span
    calc (1 : ℚ) / 2 ^ 200 ≤ 1 / 2 ^ 32 := by norm_num
      _ ≤ 1 / (l.span : ℚ) := one_div_le_one_div_of_le hpos hs
      _ ≤ (l.requests : ℚ) / l.span := div_le_div_of_nonneg_right hr hpos.le

theorem le_pace (h : l.InRange) (hr : 1 ≤ l.requests) : 1 / 2 ^ 33 ≤ l.pace := by
  have hreq : (1 : ℚ) ≤ l.requests := by exact_mod_cast hr
  have hspan : (0 : ℚ) < l.span := by exact_mod_cast l.one_le_span
  have hspan' : (l.span : ℚ) ≤ 2 ^ 32 := by exact_mod_cast h.span_lt.le
  have hratio : (1 : ℚ) / 2 ^ 32 ≤ l.requests / l.span :=
    div_le_div₀ (Nat.cast_nonneg _) hreq hspan hspan'
  have hlow := (l.pace_bounds h).1
  unfold roundoff at hlow
  linarith

theorem pace_pos (h : l.InRange) (hr : 1 ≤ l.requests) : 0 < l.pace :=
  lt_of_lt_of_le (by norm_num) (l.le_pace h hr)

theorem pace_le (h : l.InRange) : l.pace ≤ 2 ^ 33 := by
  have hup := (l.pace_bounds h).2
  have hratio := h.ratio_le
  unfold roundoff at hup
  linarith

/-- The gain of a short time is a double. -/
theorem stands_gain (h : l.InRange) {d : ℕ} (hd : Short d) :
    Stands (toSeconds d * l.rate) (l.gain d) ∧ l.gain d ≤ 2 ^ 86 := by
  have hsec : seconds d ≤ 2 ^ 53 := by
    have hwhole : ((d / nanosPerSecond : ℕ) : ℚ) + 1 ≤ 2 ^ 53 := by
      unfold Short at hd
      exact_mod_cast (by omega : d / nanosPerSecond + 1 ≤ 2 ^ 53)
    exact (seconds_le d).trans (near_le_two_pow (by positivity) hwhole)
  have hnn : 0 ≤ seconds d * l.pace := mul_nonneg (near_nonneg _) l.pace_nonneg
  have hprod : seconds d * l.pace ≤ 2 ^ 86 := by
    calc seconds d * l.pace ≤ 2 ^ 53 * 2 ^ 33 :=
          mul_le_mul hsec (l.pace_le h) l.pace_nonneg (by norm_num)
      _ = 2 ^ 86 := by norm_num
  refine ⟨?_, near_le_two_pow hnn hprod⟩
  rw [(stands_toSeconds hd).mul (l.stands_rate h)]
  exact stands_nearest hnn (near_lt_limit hnn (hprod.trans (by norm_num)))

/-- A gain is off by three roundings. -/
theorem gain_bounds (h : l.InRange) (hr : 1 ≤ l.requests) (d : ℕ) :
    d * l.perNano * (1 - roundoff) ^ 3 ≤ l.gain d ∧
      l.gain d ≤ d * l.perNano * (1 + roundoff) ^ 3 := by
  have hpace := l.le_pace h hr
  obtain ⟨hl, hu⟩ := seconds_bounds d
  have hnormal : Normal (seconds d * l.pace) := by
    rcases Nat.eq_zero_or_pos d with rfl | hd
    · left
      rw [Nat.cast_zero, zero_div, zero_mul] at hl hu
      rw [le_antisymm hu hl, zero_mul]
    · have hone : (1 : ℚ) ≤ d := by exact_mod_cast hd
      have hsec : 1 / 2 ^ 40 ≤ seconds d := by
        refine le_trans ?_ hl
        unfold roundoff nanosPerSecond
        norm_num
        linarith
      apply normal_of_le
      calc (1 : ℚ) / 2 ^ 200 ≤ 1 / 2 ^ 40 * (1 / 2 ^ 33) := by norm_num
        _ ≤ seconds d * l.pace := mul_le_mul hsec hpace (by norm_num) (near_nonneg _)
  obtain ⟨hl', hu'⟩ := near_bounds hnormal
  have hpos : 0 ≤ l.pace := l.pace_nonneg
  have hunit : d / nanosPerSecond * l.pace = d * l.perNano := by
    unfold perNano
    ring
  have hl'' := mul_le_mul_of_nonneg_right hl hpos
  have hu'' := mul_le_mul_of_nonneg_right hu hpos
  rw [mul_right_comm, hunit] at hl'' hu''
  unfold gain
  unfold roundoff at *
  constructor
  · linarith
  · linarith

end Limit

/-! ## The smaller number -/

section Smaller

variable {x y : Float} {v w : ℚ}

theorem smaller_stands (hx : Stands x v) (hy : Stands y w) : Stands (smaller x y) (min v w) := by
  unfold smaller
  rw [hx.isNaN_eq_false, Bool.false_or]
  by_cases h : w < v
  · rw [if_pos (decide_eq_true ((hy.lt_iff hx).2 h)), min_eq_right h.le]
    exact hy
  · have hlt : ¬ y < x := fun hyx => h ((hy.lt_iff hx).1 hyx)
    rw [if_neg (by simpa using hlt), min_eq_left (not_lt.1 h)]
    exact hx

theorem smaller_atLeast (hx : AtLeast v x) (hy : Stands y w) :
    ∃ t, Stands (smaller x y) t ∧ min v w ≤ t ∧ t ≤ w := by
  rcases hx with hx | ⟨u, hu, hx⟩
  · refine ⟨w, ?_, min_le_right v w, le_rfl⟩
    unfold smaller
    rw [decide_eq_true (hy.lt_infinity hx), Bool.or_true, if_pos rfl]
    exact hy
  · exact ⟨min u w, smaller_stands hx hy, min_le_min_right w hu, min_le_right u w⟩

theorem smaller_of_isNaN (hx : x.isNaN = true) : smaller x y = y := by
  unfold smaller
  rw [hx, Bool.true_or, if_pos rfl]

end Smaller

/-! ## Buckets -/

theorem Bucket.consume_of_hasToken {b : Bucket} {now : ℕ} (h : (b.refill now).hasToken = true) :
    b.consume now = (true, { b.refill now with tokens := (b.refill now).tokens - 1.0 }) :=
  if_pos h

theorem Bucket.consume_of_empty {b : Bucket} {now : ℕ} (h : (b.refill now).hasToken = false) :
    b.consume now = (false, b.refill now) :=
  if_neg (by rw [h]; exact Bool.false_ne_true)

/-- A bucket under a limit with so many tokens. -/
structure Bucket.Holds (l : Limit) (b : Bucket) (τ : ℚ) : Prop where
  capacity : b.capacity = Float.ofNat l.requests
  rate : b.rate = l.rate
  tokens : Stands b.tokens τ
  le : τ ≤ l.requests

namespace Bucket.Holds

variable {l : Limit} {b : Bucket} {τ : ℚ} {now d : ℕ}

theorem stands_capacity (hl : l.InRange) (h : b.Holds l τ) : Stands b.capacity l.requests := by
  rw [h.capacity]
  exact hl.stands_requests

theorem newBucket (hl : l.InRange) (now : ℕ) : (l.newBucket now).Holds l l.requests :=
  ⟨rfl, rfl, hl.stands_requests, le_rfl⟩

/-- A refill over a short time adds the gain of that time, up to the capacity. -/
theorem refill_eq (hl : l.InRange) (h : b.Holds l τ) (hd : Short (now - b.updated)) :
    (b.refill now).Holds l (min (near (τ + l.gain (now - b.updated))) l.requests) := by
  obtain ⟨hgain, hbound⟩ := l.stands_gain hl hd
  have hsum := add_nonneg h.tokens.nonneg hgain.nonneg
  have hR : (l.requests : ℚ) ≤ 2 ^ 32 := by exact_mod_cast hl.requests.le
  have hτ := h.le
  refine ⟨h.capacity, h.rate, ?_, min_le_right _ _⟩
  show Stands (smaller (b.tokens + toSeconds (now - b.updated) * b.rate) b.capacity) _
  rw [h.rate]
  refine smaller_stands ?_ (h.stands_capacity hl)
  rw [h.tokens.add hgain]
  exact stands_nearest hsum (near_lt_limit hsum (by linarith))

theorem refill_same (hl : l.InRange) (h : b.Holds l τ) (hnow : now - b.updated = 0) :
    (b.refill now).Holds l τ := by
  have hshort : Short (now - b.updated) := by
    rw [hnow]
    norm_num [Short]
  have hrefill := h.refill_eq hl hshort
  rwa [hnow, l.gain_zero, add_zero, h.tokens.near_eq, min_eq_left h.le] at hrefill

/-- A refill over a longer time adds no less. -/
theorem refill_ge (hl : l.InRange) (hr : 1 ≤ l.requests) (h : b.Holds l τ) (hd : Short d)
    (hle : d ≤ now - b.updated) :
    ∃ τ', (b.refill now).Holds l τ' ∧ min (near (τ + l.gain d)) l.requests ≤ τ' := by
  have hpace := l.pace_pos hl hr
  have hsec := atLeast_toSeconds hd hle
  have hprod := hsec.mul (l.stands_rate hl) (near_nonneg _) hpace
  have hsum := h.tokens.atLeast.add hprod h.tokens.nonneg (near_nonneg _)
  obtain ⟨t, ht, hlow, hup⟩ := smaller_atLeast hsum (h.stands_capacity hl)
  refine ⟨t, ⟨h.capacity, h.rate, ?_, hup⟩, hlow⟩
  show Stands (smaller (b.tokens + toSeconds (now - b.updated) * b.rate) b.capacity) t
  rw [h.rate]
  exact ht

/-- Under a limit that allows nothing, no token ever comes. -/
theorem refill_zero (hl : l.InRange) (hr : l.requests = 0) (h : b.Holds l τ) (now : ℕ) :
    (b.refill now).Holds l 0 := by
  have hτ : τ = 0 := by
    have hle := h.le
    rw [hr, Nat.cast_zero] at hle
    exact le_antisymm hle h.tokens.nonneg
  have hcap := h.stands_capacity hl
  have hrate := l.stands_rate hl
  have htokens := h.tokens
  rw [hr, Nat.cast_zero] at hcap
  rw [Limit.pace, hr, Nat.cast_zero, zero_div, near_zero] at hrate
  rw [hτ] at htokens
  refine ⟨h.capacity, h.rate, ?_, Nat.cast_nonneg _⟩
  show Stands (smaller (b.tokens + toSeconds (now - b.updated) * b.rate) b.capacity) 0
  rw [h.rate]
  rcases atLeast_toSeconds (d := 0) (by norm_num [Short]) (Nat.zero_le (now - b.updated)) with
    hinf | ⟨w, -, hw⟩
  · rw [smaller_of_isNaN (isNaN_add_infinity_mul htokens hinf hrate)]
    exact hcap
  · rw [hw.mul hrate, mul_zero, ← stands_zero.eq_nearest, htokens.add stands_zero, add_zero,
      ← stands_zero.eq_nearest]
    have hmin := smaller_stands stands_zero hcap
    rwa [min_self] at hmin

theorem refill (hl : l.InRange) (h : b.Holds l τ) (now : ℕ) :
    ∃ τ', (b.refill now).Holds l τ' := by
  rcases Nat.eq_zero_or_pos l.requests with hr | hr
  · exact ⟨0, h.refill_zero hl hr now⟩
  · obtain ⟨τ', hτ', -⟩ := h.refill_ge hl hr (d := 0) (by norm_num [Short])
      (Nat.zero_le (now - b.updated))
    exact ⟨τ', hτ'⟩

theorem hasToken_iff (h : b.Holds l τ) : b.hasToken = true ↔ 1 ≤ τ := by
  unfold hasToken
  rw [decide_eq_true_eq]
  exact stands_one.le_iff h.tokens

theorem take (hl : l.InRange) (h : b.Holds l τ) (hτ : 1 ≤ τ) :
    Bucket.Holds l { b with tokens := b.tokens - 1.0 } (near (τ - 1)) := by
  have hr := hl.requests
  have hle := h.le
  have hR : (l.requests : ℚ) ≤ 2 ^ 32 := by exact_mod_cast hr.le
  refine ⟨h.capacity, h.rate, ?_, ?_⟩
  · show Stands (b.tokens - 1.0) (near (τ - 1))
    rw [h.tokens.sub stands_one hτ]
    exact stands_nearest (by linarith) (near_lt_limit (by linarith) (by linarith))
  · rw [← near_natCast (show l.requests ≤ 2 ^ 53 by omega)]
    exact near_mono (by linarith) (by linarith)

theorem consume_taken (hl : l.InRange) (h : (b.refill now).Holds l τ) (hτ : 1 ≤ τ) :
    (b.consume now).1 = true ∧ (b.consume now).2.Holds l (near (τ - 1)) := by
  rw [consume_of_hasToken (h.hasToken_iff.2 hτ)]
  exact ⟨rfl, h.take hl hτ⟩

/-- The whole tokens of a bucket are few enough to be shown. -/
theorem remaining (hl : l.InRange) (h : b.Holds l τ) : b.remaining = ⌊τ⌋₊ := by
  have hr := hl.requests
  have hfew : ⌊τ⌋₊ ≤ l.requests := by
    rw [← Nat.floor_natCast (R := ℚ) l.requests]
    exact Nat.floor_mono h.le
  have hshown : mostShown = 2 ^ 32 - 1 := rfl
  obtain ⟨m, e, hx, hτ⟩ := h.tokens.reading
  unfold Bucket.remaining wholeTokens
  rw [hx]
  dsimp only
  rw [← Nat.floor_div_eq_div (K := ℚ), cast_div_two_pow, ← hτ, min_eq_right (by omega)]

theorem consume (hl : l.InRange) (h : b.Holds l τ) (now : ℕ) :
    ∃ τ', (b.consume now).2.Holds l τ' := by
  obtain ⟨τ', hτ'⟩ := h.refill hl now
  cases ht : (b.refill now).hasToken with
  | true => exact ⟨_, (hτ'.consume_taken hl (hτ'.hasToken_iff.1 ht)).2⟩
  | false =>
    rw [consume_of_empty ht]
    exact ⟨τ', hτ'⟩

end Bucket.Holds

end ItemBudget.RateLimit
