import ItemBudget.Proofs.RateLimit.Run

/-!
# Waiting as told

A refused client is told to wait until it has a token. The wait is a rounded quotient and the refill
a rounded product, so the two meet only up to `slack`: a client that comes `slack` after the time it
was told gets in, one that comes `slack` before it is refused again, and in between the rounding
decides (`limited_wait`). For a window of less than `2 ^ 49` nanoseconds the slack is one nanosecond;
exactly at the time told the client may still be refused (`refused_after_wait`).

Both sides are products with `perNano`, the tokens of a nanosecond. With `ε` the roundoff, a wait of
`d` for `1 - τ` tokens has `d * perNano` within `(1 - τ) * 2 ε` and half a nanosecond of `1 - τ`, a
refill adds another `3 ε`, and the slack is worth `7 ε` and half a nanosecond (`le_slack`).
-/

namespace ItemBudget.RateLimit

open Double Time

namespace Limit

/-- The nanoseconds by which a wait may be off. -/
def slack (l : Limit) : ℕ := 1 + l.window / 2 ^ 49

/-- The seconds to wait that a bucket with so many tokens tells, rounded as doubles are. -/
def waitSeconds (l : Limit) (τ : ℚ) : ℚ := near (near (1 - τ) / l.pace)

variable {l : Limit}

theorem perNano_pos (hl : l.InRange) (hr : 1 ≤ l.requests) : 0 < l.perNano :=
  div_pos (l.pace_pos hl hr) (by norm_num [nanosPerSecond])

theorem window_mul_perNano (l : Limit) : l.window * l.perNano = l.span * l.pace := by
  unfold window perNano nanosPerSecond
  push_cast
  ring

/-- A window fills the bucket, up to a rounding. -/
theorem le_window_mul_perNano (hl : l.InRange) (hr : 1 ≤ l.requests) :
    1 - roundoff ≤ l.window * l.perNano := by
  have hreq : (1 : ℚ) ≤ l.requests := by exact_mod_cast hr
  have hspan : (0 : ℚ) < l.span := by exact_mod_cast l.one_le_span
  have hround : 0 ≤ 1 - roundoff := by norm_num [roundoff]
  rw [window_mul_perNano]
  calc 1 - roundoff ≤ l.requests * (1 - roundoff) := le_mul_of_one_le_left hround hreq
    _ = l.span * (l.requests / l.span * (1 - roundoff)) := by field_simp
    _ ≤ l.span * l.pace := mul_le_mul_of_nonneg_left (l.pace_bounds hl).1 hspan.le

/-- What the slack is worth. -/
theorem le_slack (hl : l.InRange) (hr : 1 ≤ l.requests) :
    7 * roundoff + l.perNano / 2 ≤ l.slack * l.perNano := by
  have hpos := l.perNano_pos hl hr
  have hslack : (1 : ℚ) / 2 + l.window / 2 ^ 50 ≤ l.slack := by
    have hdiv := Nat.lt_div_mul_add (a := l.window) (b := 2 ^ 49) (by norm_num)
    have hcast : (l.window : ℚ) < (l.window / 2 ^ 49 : ℕ) * 2 ^ 49 + 2 ^ 49 := by
      exact_mod_cast hdiv
    have hnn : (0 : ℚ) ≤ (l.window / 2 ^ 49 : ℕ) := Nat.cast_nonneg _
    unfold slack
    push_cast at hcast hnn ⊢
    linarith
  have hwindow := l.le_window_mul_perNano hl hr
  have hmul := mul_le_mul_of_nonneg_right hslack hpos.le
  unfold roundoff at *
  linarith

theorem two_slack_le (l : Limit) : 2 * l.slack ≤ l.window := by
  have hspan := l.one_le_span
  unfold slack
  rw [window_eq]
  omega

end Limit

/-! ## The gain after a wait -/

section Gain

variable {l : Limit} {τ : ℚ} {e : ℕ}

/-- Late enough, the missing part of a token has come. -/
theorem le_gain (hl : l.InRange) (hr : 1 ≤ l.requests) (h0 : 0 ≤ τ)
    (h : (1 - τ) * (1 - roundoff) ^ 2 + 7 * roundoff ≤ e * l.perNano) : 1 - τ ≤ l.gain e := by
  have hgain := (l.gain_bounds hl hr e).1
  have hround : (0 : ℚ) ≤ (1 - roundoff) ^ 3 := by norm_num [roundoff]
  have hmul := mul_le_mul_of_nonneg_right h hround
  unfold roundoff at *
  linarith

/-- Early enough, a part of the token is missing. -/
theorem gain_le (hl : l.InRange) (hr : 1 ≤ l.requests) (h0 : 0 ≤ τ)
    (h : e * l.perNano ≤ (1 - τ) * (1 + roundoff) ^ 2 - 7 * roundoff) :
    l.gain e ≤ 1 - τ - roundoff := by
  have hgain := (l.gain_bounds hl hr e).2
  have hround : (0 : ℚ) ≤ (1 + roundoff) ^ 3 := by norm_num [roundoff]
  have hmul := mul_le_mul_of_nonneg_right h hround
  unfold roundoff at *
  linarith

end Gain

/-! ## The wait of a bucket -/

namespace Bucket.Holds

variable {l : Limit} {b : Bucket} {τ : ℚ} {d now : ℕ}

/-- Less than a token is less by more than the roundoff can hide. -/
theorem lt_missing (h : b.Holds l τ) (hτ : τ < 1) : 1 / 2 ^ 56 < 1 - τ := by
  by_contra hle
  have hclose : 1 * (1 - 1 / 2 ^ 56) ≤ τ := by linarith
  have hone := le_near_of_close one_pos near_one hclose
  rw [h.tokens.near_eq] at hone
  linarith

theorem stands_wait (hl : l.InRange) (hr : 1 ≤ l.requests) (h : b.Holds l τ) (hτ : τ < 1) :
    Stands ((1.0 - b.tokens) / b.rate) (l.waitSeconds τ) ∧ l.waitSeconds τ ≤ 2 ^ 33 := by
  have h0 := h.tokens.nonneg
  have hpace := l.le_pace hl hr
  have hpos := l.pace_pos hl hr
  have hmissing : near (1 - τ) ≤ 1 := by
    have hle : near (1 - τ) ≤ near 1 := near_mono (by linarith) (by linarith)
    rwa [near_one] at hle
  have hquot : near (1 - τ) / l.pace ≤ 2 ^ 33 := by
    rw [div_le_iff₀ hpos]
    linarith
  have hnn : 0 ≤ near (1 - τ) / l.pace := div_nonneg (near_nonneg _) hpos.le
  have hsub : Stands (1.0 - b.tokens) (near (1 - τ)) := by
    rw [stands_one.sub h.tokens hτ.le]
    exact stands_nearest (by linarith) (near_lt_limit (by linarith) (by linarith))
  refine ⟨?_, near_le_two_pow hnn hquot⟩
  rw [h.rate, hsub.div (l.stands_rate hl) hpos]
  exact stands_nearest hnn (near_lt_limit hnn (hquot.trans (by norm_num)))

/-- The difference and the quotient are each rounded once. -/
theorem waitSeconds_bounds (hl : l.InRange) (hr : 1 ≤ l.requests) (h : b.Holds l τ) (hτ : τ < 1) :
    (1 - τ) * (1 - roundoff) ^ 2 ≤ l.waitSeconds τ * l.pace ∧
      l.waitSeconds τ * l.pace ≤ (1 - τ) * (1 + roundoff) ^ 2 := by
  have hmissing := h.lt_missing hτ
  have hpos := l.pace_pos hl hr
  have hpace := l.pace_le hl
  obtain ⟨hl1, hu1⟩ := near_bounds (v := 1 - τ) (normal_of_le (by linarith))
  have hnormal : Normal (near (1 - τ) / l.pace) := by
    apply normal_of_le
    rw [le_div_iff₀ hpos]
    unfold roundoff at *
    linarith
  obtain ⟨hl2, hu2⟩ := near_bounds hnormal
  rw [div_mul_eq_mul_div, div_le_iff₀ hpos] at hl2
  rw [div_mul_eq_mul_div, le_div_iff₀ hpos] at hu2
  unfold Limit.waitSeconds
  unfold roundoff at *
  constructor
  · linarith
  · linarith

/-- A bucket without a token tells a wait, off by two roundings and half a nanosecond. -/
theorem exists_wait (hl : l.InRange) (hr : 1 ≤ l.requests) (h : b.Holds l τ) (hτ : τ < 1) :
    ∃ d : ℕ, b.wait? = some d ∧
      (1 - τ) * (1 - roundoff) ^ 2 - l.perNano / 2 ≤ d * l.perNano ∧
      d * l.perNano ≤ (1 - τ) * (1 + roundoff) ^ 2 + l.perNano / 2 := by
  obtain ⟨hw, hlimit⟩ := h.stands_wait hl hr hτ
  obtain ⟨hl1, hu1⟩ := h.waitSeconds_bounds hl hr hτ
  have hfew : ¬ (b.hasToken || b.rate ≤ 0.0) = true := by
    have hrate : ¬ b.rate ≤ 0.0 := by
      rw [h.rate, (l.stands_rate hl).le_iff stands_zero]
      exact not_le.2 (l.pace_pos hl hr)
    have htoken : ¬ b.hasToken = true := by
      rw [h.hasToken_iff]
      exact not_le.2 hτ
    simp [hrate, htoken]
  refine ⟨_, by rw [wait?, if_neg hfew, ofSeconds?_eq hw (by linarith)], ?_⟩
  have hnn : 0 ≤ l.waitSeconds τ * nanosPerSecond := mul_nonneg hw.nonneg (Nat.cast_nonneg _)
  have hpos := (l.perNano_pos hl hr).le
  have hunit : l.waitSeconds τ * nanosPerSecond * l.perNano = l.waitSeconds τ * l.pace := by
    unfold Limit.perNano nanosPerSecond
    push_cast
    ring
  obtain ⟨hl2, hu2⟩ := roundEven_bounds hnn
  have hl3 := mul_le_mul_of_nonneg_right hl2 hpos
  have hu3 := mul_le_mul_of_nonneg_right hu2 hpos
  rw [sub_mul, hunit] at hl3
  rw [add_mul, hunit] at hu3
  constructor
  · linarith
  · linarith

/-- **The wait of a bucket** is right up to the slack. -/
theorem wait (hl : l.InRange) (hr : 1 ≤ l.requests) (h : b.Holds l τ) (hτ : τ < 1) :
    ∃ d : ℕ, b.wait? = some d ∧ d ≤ l.window + l.slack ∧ ∀ now e : ℕ, now - b.updated = e →
      (d + l.slack ≤ e → (b.refill now).hasToken = true) ∧
      (e = 0 ∨ e + l.slack ≤ d → (b.refill now).hasToken = false) := by
  have h0 := h.tokens.nonneg
  have hpos := l.perNano_pos hl hr
  have hslack := l.le_slack hl hr
  obtain ⟨d, hd, hlow, hup⟩ := h.exists_wait hl hr hτ
  have hlen : d ≤ l.window + l.slack := by
    have hwindow := l.le_window_mul_perNano hl hr
    have hmul : (d : ℚ) * l.perNano ≤ (l.window + l.slack) * l.perNano := by
      unfold roundoff at *
      linarith
    exact_mod_cast le_of_mul_le_mul_right hmul hpos
  have hsmall := l.two_slack_le
  refine ⟨d, hd, hlen, fun now e he => ⟨fun hlate => ?_, fun hearly => ?_⟩⟩
  · have hshort : Short (d + l.slack) := hl.short (by omega)
    obtain ⟨τ', hτ', hge⟩ := h.refill_ge hl hr hshort (hlate.trans he.ge)
    have hgain : 1 - τ ≤ l.gain (d + l.slack) := by
      refine le_gain hl hr h0 ?_
      push_cast
      linarith
    have htoken : 1 ≤ near (τ + l.gain (d + l.slack)) := by
      rw [← near_one]
      exact near_mono zero_le_one (by linarith)
    have hreq : (1 : ℚ) ≤ l.requests := by exact_mod_cast hr
    rw [hτ'.hasToken_iff]
    exact (le_min htoken hreq).trans hge
  · rw [Bool.eq_false_iff, ne_eq]
    rcases hearly with rfl | hearly
    · rw [(h.refill_same hl he).hasToken_iff, not_le]
      exact hτ
    · have hshort : Short (now - b.updated) := by
        rw [he]
        exact hl.short (by omega)
      rw [(h.refill_eq hl hshort).hasToken_iff, not_le, he]
      refine lt_of_le_of_lt (min_le_left _ _) ?_
      have hgain : l.gain e ≤ 1 - τ - roundoff := by
        refine gain_le hl hr h0 ?_
        have hcast : (e : ℚ) + l.slack ≤ d := by exact_mod_cast hearly
        have hmul := mul_le_mul_of_nonneg_right hcast hpos.le
        linarith
      have hkeep : near (1 - roundoff) = 1 - roundoff := by
        have hbits := near_bits (n := 2 ^ 53 - 1) (q := -53) (by norm_num) (by norm_num)
        norm_num [roundoff] at hbits ⊢
        exact hbits
      have hle : near (τ + l.gain e) ≤ near (1 - roundoff) :=
        near_mono (add_nonneg h0 (l.gain_nonneg _)) (by linarith)
      rw [hkeep] at hle
      unfold roundoff at hle
      linarith

end Bucket.Holds

/-! ## The wait of a client -/

namespace Limiter

/-- **Waiting as told**: in a run of checks a refused client is told a wait, at most a window and the
slack. After any checks of other clients it gets in when it comes the slack later than told, counted
from its last use, and is refused when it comes the slack earlier. -/
theorem limited_wait {limit : Limit} (hl : limit.InRange) (hr : 1 ≤ limit.requests)
    {calls : List (Call × Nanos)} (hc : ∀ c ∈ calls, c.1.isCheck = true) {client : String} {t : ℕ}
    {wait : Option Nanos} {requests : ℕ}
    (h : (((new limit).after calls).check client t).1 = .limited wait requests) :
    ∃ d : ℕ, wait = some d ∧ d ≤ limit.window + limit.slack ∧
      ∀ others, (∀ c ∈ others, c.1.isCheck = true ∧ c.1 ≠ .check client) → ∀ now : ℕ,
        (lastUse client (calls ++ [(.check client, t)]) + d + limit.slack ≤ now →
          (((new limit).after (calls ++ (.check client, t) :: others)).check client now).1.isAllowed
            = true) ∧
        (now + limit.slack ≤ lastUse client (calls ++ [(.check client, t)]) + d →
          (((new limit).after (calls ++ (.check client, t) :: others)).check client now).1.isAllowed
            = false) := by
  have hlimit : ((new limit).after calls).limit = limit := limit_after _ _
  obtain ⟨hempty, rfl, hkept⟩ := bucket_of_limited h
  obtain ⟨τ, hτ⟩ := (sound_after hl calls).bucketOf (by rwa [hlimit]) client t
  rw [hlimit] at hτ
  obtain ⟨τ', hb⟩ := hτ.refill hl t
  generalize (((new limit).after calls).bucketOf client t).refill t = b at hempty hkept hb ⊢
  have hfew : τ' < 1 := by
    rw [← not_le, ← hb.hasToken_iff, hempty]
    exact Bool.false_ne_true
  obtain ⟨d, hd, hlen, hwait⟩ := hb.wait hl hr hfew
  refine ⟨d, hd, hlen, fun others hothers now => ?_⟩
  have hchecks : ∀ c ∈ calls ++ [(.check client, t)], c.1.isCheck = true := by
    intro c hm
    rcases List.mem_append.1 hm with hm | hm
    · exact hc c hm
    · rw [List.mem_singleton.1 hm]
      rfl
  have hused := updated_after limit client hchecks
  rw [after_concat, call, hkept, Option.elim_some] at hused
  have hagain : ((new limit).after (calls ++ (.check client, t) :: others)).bucketOf client now
      = b := by
    rw [after_append]
    exact bucketOf_after_of_ne hkept hothers now
  obtain ⟨hlate, hearly⟩ := hwait now (now - b.updated) rfl
  rw [isAllowed_check, hagain]
  rw [hused] at hlate hearly
  refine ⟨fun hnow => hlate ?_, fun hnow => hearly ?_⟩
  · omega
  · omega

/-- A nanosecond after the time told a fourth request is let in. -/
theorem allowed_after_wait :
    (((new ⟨3, 1⟩).after
      (List.replicate 4 (.check "a", 0) ++ [(.check "b", 5)])).check "a" 333333334).1.isAllowed
        = true := by
  have hlimited : (((new ⟨3, 1⟩).after (List.replicate 3 (.check "a", 0))).check "a" 0).1
      = .limited (some 333333333) 3 := by decide +kernel
  obtain ⟨d, hd, -, hwait⟩ := limited_wait ⟨by decide, by decide⟩ (by decide) (by decide) hlimited
  cases hd
  exact (hwait [(.check "b", 5)] (by decide) 333333334).1 (by decide)

/-- At the time told it may still be refused, and is told not to wait. -/
theorem refused_after_wait :
    (((new ⟨3, 1⟩).after (List.replicate 3 (.check "a", 0))).check "a" 0).1
        = .limited (some 333333333) 3 ∧
      (((new ⟨3, 1⟩).after (List.replicate 4 (.check "a", 0))).check "a" 333333333).1
        = .limited (some 0) 3 := by
  decide +kernel

end Limiter

end ItemBudget.RateLimit
