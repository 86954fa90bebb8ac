import ItemBudget.Proofs.RateLimit.Burst

/-!
# Sweeps

A sweep forgets the buckets that were idle for longer than a window, and a client whose bucket is
forgotten starts with a full one. No verdict tells when every bucket is full after such a time, and
`Refills` says that it is: the gain of a window and a nanosecond is the capacity, as doubles are
rounded. It holds of every limit with a span of less than `2 ^ 24` seconds; of a longer span the
nanosecond can be lost in the rounding of the seconds, and a full window gives one roundoff less
than the capacity.

A limiter that swept and one that did not are related by `Forgets`: they differ in buckets that are
forgotten in one and idle for a window in the other. Every call keeps this and has the same verdict
in both (`Forgets.check`, `Forgets.sweepAbove`).
-/

namespace ItemBudget.RateLimit

open Double Time

/-! ## Full again -/

/-- An empty bucket is full after more than a window. -/
def Limit.Refills (l : Limit) : Prop :=
  Float.ofNat l.requests ≤ toSeconds (l.window + 1) * l.rate

instance (l : Limit) : Decidable l.Refills :=
  inferInstanceAs (Decidable (Float.ofNat l.requests ≤ toSeconds (l.window + 1) * l.rate))

namespace Limit

variable {l : Limit}

theorem short_past_window (hl : l.InRange) : Short (l.window + 1) := by
  have hspan := l.one_le_span
  refine hl.short ?_
  rw [window_eq]
  omega

theorem refills_iff (hl : l.InRange) : l.Refills ↔ (l.requests : ℚ) ≤ l.gain (l.window + 1) :=
  hl.stands_requests.le_iff (l.stands_gain hl (l.short_past_window hl)).1

theorem refills_of_span_lt (hl : l.InRange) (h : l.span < 2 ^ 24) : l.Refills := by
  rw [refills_iff hl]
  rcases Nat.eq_zero_or_pos l.requests with h0 | h0
  · rw [h0, Nat.cast_zero]
    exact l.gain_nonneg _
  · have hreq : (0 : ℚ) < l.requests := by exact_mod_cast h0
    have hspan : (0 : ℚ) < l.span := by exact_mod_cast l.one_le_span
    refine le_near_of_close hreq hl.stands_requests.near_eq ?_
    -- one roundoff more than the span makes up for the rounding of the rate
    have hup : (0 : ℚ) ≤ l.span * (1 + roundoff) := mul_nonneg hspan.le (by norm_num [roundoff])
    calc (l.requests : ℚ) * (1 - 1 / 2 ^ 56)
        ≤ l.requests * ((1 + roundoff) * (1 - roundoff)) := by
          refine mul_le_mul_of_nonneg_left ?_ hreq.le
          norm_num [roundoff]
      _ = l.span * (1 + roundoff) * (l.requests / l.span * (1 - roundoff)) := by field_simp
      _ ≤ l.span * (1 + roundoff) * l.pace := mul_le_mul_of_nonneg_left (l.pace_bounds hl).1 hup
      _ ≤ seconds (l.window + 1) * l.pace :=
          mul_le_mul_of_nonneg_right (le_seconds_past h) l.pace_nonneg

example : ¬ (⟨1, 25690112⟩ : Limit).Refills := by decide +kernel

end Limit

namespace Bucket.Holds

variable {l : Limit} {b : Bucket} {τ : ℚ} {now : ℕ}

/-- A bucket is determined by its tokens and the time of its last use. -/
theorem eq_of_updated {b' : Bucket} (h : b.Holds l τ) (h' : b'.Holds l τ)
    (hu : b.updated = b'.updated) : b = b' := by
  obtain ⟨tokens, capacity, rate, updated⟩ := b
  obtain ⟨tokens', capacity', rate', updated'⟩ := b'
  have htokens : tokens = tokens' := h.tokens.eq_nearest.trans h'.tokens.eq_nearest.symm
  have hcapacity : capacity = capacity' := h.capacity.trans h'.capacity.symm
  have hrate : rate = rate' := h.rate.trans h'.rate.symm
  rw [htokens, hcapacity, hrate]
  exact congrArg _ hu

/-- A bucket that was idle for longer than a window is full. -/
theorem refill_full (hl : l.InRange) (hf : l.Refills) (h : b.Holds l τ)
    (hidle : b.updated + l.window < now) : (b.refill now).Holds l l.requests := by
  rcases Nat.eq_zero_or_pos l.requests with h0 | h0
  · rw [h0, Nat.cast_zero]
    exact h.refill_zero hl h0 now
  · have hshort := l.short_past_window hl
    have hle : l.window + 1 ≤ now - b.updated :=
      Nat.add_one_le_iff.2 (Nat.lt_sub_iff_add_lt'.2 hidle)
    obtain ⟨τ', hτ', hge⟩ := h.refill_ge hl h0 hshort hle
    have hgain := (l.stands_gain hl hshort).1.near_eq
    have hmono : near (l.gain (l.window + 1)) ≤ near (τ + l.gain (l.window + 1)) :=
      near_mono (l.gain_nonneg _) (le_add_of_nonneg_left h.tokens.nonneg)
    rw [hgain] at hmono
    rw [min_eq_right (((l.refills_iff hl).1 hf).trans hmono)] at hge
    rwa [le_antisymm hτ'.le hge] at hτ'

theorem consume_eq_newBucket (hl : l.InRange) (hf : l.Refills) (h : b.Holds l τ)
    (hidle : b.updated + l.window < now) : b.consume now = (l.newBucket now).consume now := by
  have hnew : ((l.newBucket now).refill now).Holds l l.requests :=
    (newBucket hl now).refill_same hl (Nat.sub_self now)
  have hused : (b.refill now).updated = ((l.newBucket now).refill now).updated := by
    have hle : b.updated ≤ now := (Nat.le_add_right _ _).trans hidle.le
    exact (max_eq_right hle).trans (max_self now).symm
  unfold Bucket.consume
  rw [(h.refill_full hl hf hidle).eq_of_updated hnew hused]

end Bucket.Holds

/-! ## With and without sweeps -/

namespace Limiter

/-- The second limiter is the first without some buckets that were idle for a window at a time. -/
structure Forgets (now : ℕ) (kept swept : Limiter) : Prop where
  limit : swept.limit = kept.limit
  sound : kept.Sound
  buckets : ∀ client, swept.buckets.get? client = kept.buckets.get? client ∨
    swept.buckets.get? client = none ∧
      ∃ b, kept.buckets.get? client = some b ∧ b.updated + kept.limit.window < now

namespace Forgets

variable {kept swept : Limiter} {t now : ℕ}

theorem mono (h : Forgets t kept swept) (hle : t ≤ now) : Forgets now kept swept where
  limit := h.limit
  sound := h.sound
  buckets client := by
    refine (h.buckets client).imp_right fun ⟨hnone, b, hb, hidle⟩ => ?_
    exact ⟨hnone, b, hb, lt_of_lt_of_le hidle hle⟩

theorem consume_eq (hl : kept.limit.InRange) (hf : kept.limit.Refills) (h : Forgets now kept swept)
    (client : String) :
    (swept.bucketOf client now).consume now = (kept.bucketOf client now).consume now := by
  unfold bucketOf
  rw [h.limit]
  rcases h.buckets client with heq | ⟨hnone, b, hb, hidle⟩
  · rw [heq]
  · obtain ⟨τ, hτ⟩ := h.sound client b hb
    rw [hnone, hb]
    exact (hτ.consume_eq_newBucket hl hf hidle).symm

/-- A check has the same verdict in both, and the client the same bucket. -/
theorem check (hl : kept.limit.InRange) (hf : kept.limit.Refills) (h : Forgets now kept swept)
    (client : String) :
    (swept.check client now).1 = (kept.check client now).1 ∧
      Forgets now (kept.check client now).2 (swept.check client now).2 := by
  have hconsume := h.consume_eq hl hf client
  refine ⟨?_, h.limit, h.sound.call hl now (.check client), fun other => ?_⟩
  · unfold Limiter.check
    rw [hconsume, h.limit]
  · by_cases ho : other = client
    · left
      rw [ho, get?_check, get?_check, hconsume]
    · rw [get?_buckets_check now ho, get?_buckets_check now ho]
      exact h.buckets other

theorem sweepAbove (h : Forgets now kept swept) (most : ℕ) :
    Forgets now kept (swept.sweepAbove most now).2 := by
  rcases swept.sweepAbove_cases most now with hs | hs
  · rw [hs]
    exact h
  · rw [hs]
    refine ⟨h.limit, h.sound, fun client => ?_⟩
    rw [get?_sweep, h.limit]
    rcases h.buckets client with heq | ⟨hnone, hidle⟩
    · rw [heq]
      cases hb : kept.buckets.get? client with
      | none => exact .inl rfl
      | some b =>
        by_cases hidle : now ≤ b.updated + kept.limit.window
        · left
          rw [Option.filter_some, if_pos (decide_eq_true hidle)]
        · right
          rw [Option.filter_some, if_neg (by simpa using hidle)]
          exact ⟨rfl, b, rfl, not_le.1 hidle⟩
    · right
      rw [hnone]
      exact ⟨rfl, hidle⟩

/-- The sweeps of a run are not seen in its verdicts. -/
theorem verdicts_eq (hl : kept.limit.InRange) (hf : kept.limit.Refills) (h : Forgets t kept swept)
    {calls : List (Call × Nanos)} (hlate : ∀ c ∈ calls, t ≤ c.2)
    (htimes : (calls.map Prod.snd).Pairwise (· ≤ ·)) :
    kept.verdicts (calls.filter fun c => c.1.isCheck) = swept.verdicts calls := by
  induction calls generalizing kept swept t with
  | nil => rfl
  | cons c calls ih =>
    obtain ⟨call, now⟩ := c
    obtain ⟨hfirst, hrest⟩ := List.pairwise_cons.1 htimes
    have hlater : ∀ c ∈ calls, now ≤ c.2 := fun c hc => hfirst c.2 (List.mem_map_of_mem hc)
    have hnow : Forgets now kept swept := h.mono (hlate (call, now) List.mem_cons_self)
    cases call with
    | check client =>
      obtain ⟨hverdict, hkeep⟩ := hnow.check hl hf client
      have hl' : (kept.check client now).2.limit.InRange := hl
      have hf' : (kept.check client now).2.limit.Refills := hf
      rw [List.filter_cons_of_pos rfl, verdicts_check, verdicts_check, hverdict,
        ih hl' hf' hkeep hlater hrest]
    | sweepAbove most =>
      rw [List.filter_cons_of_neg Bool.false_ne_true, verdicts_sweepAbove]
      exact ih hl hf (hnow.sweepAbove most) hlater hrest

end Forgets

/-! ## A drained bucket -/

variable {l : Limiter} {limit : Limit} {client : String} {τ : ℚ} {now : ℕ}

/-- The limiter after so many checks of a client at the start. -/
def burst (limit : Limit) (client : String) (k : ℕ) : Limiter :=
  (new limit).after (List.replicate k (.check client, 0))

theorem limit_burst (limit : Limit) (client : String) (k : ℕ) :
    (burst limit client k).limit = limit :=
  limit_after _ _

/-- After as many checks as the limit allows the bucket is empty. -/
theorem get?_burst (hl : limit.InRange) (hr : 1 ≤ limit.requests) (client : String) :
    ∃ b, (burst limit client limit.requests).buckets.get? client = some b ∧ b.Holds limit 0 ∧
      b.updated = 0 := by
  obtain ⟨n, hn⟩ := Nat.exists_eq_add_of_le' hr
  have hrun : burst limit client limit.requests
      = ((new limit).check client 0).2.after (checksOf client (List.replicate n 0)) := by
    rw [burst, hn, List.replicate_succ, checksOf, List.map_replicate]
    rfl
  obtain ⟨b, hb, hholds, hupdated⟩ := (check_first hl client 0).2.after
    (l := ((new limit).check client 0).2) hl fun _ ht => (List.eq_of_mem_replicate ht).le
  rw [← hrun] at hb hholds
  rw [limit_burst, List.length_replicate, hn, Nat.add_sub_cancel, Nat.sub_self, Nat.cast_zero]
    at hholds
  exact ⟨b, hb, hholds, hupdated⟩

/-- A sweep more than a window after a burst forgets its client, and the next check is the first. -/
theorem check_after_sweep (hl : limit.InRange) (hr : 1 ≤ limit.requests) (client : String) :
    (((burst limit client limit.requests).sweepAbove 0 (limit.window + 1)).2.check client
      (limit.window + 1)).1 = .allowed (limit.requests - 1) limit.requests := by
  obtain ⟨b, hb, -, hupdated⟩ := get?_burst hl hr client
  have htracked : ¬ (burst limit client limit.requests).tracked ≤ 0 := by
    intro hnone
    have hentries : (burst limit client limit.requests).buckets.entries = [] :=
      List.length_eq_zero_iff.1 (Nat.le_zero.1 hnone)
    rw [Table.get?, hentries] at hb
    cases hb
  have hforgotten : ((burst limit client limit.requests).sweep (limit.window + 1)
      limit.window).2.buckets.get? client = none := by
    rw [get?_sweep, hb, Option.filter_some, hupdated, if_neg]
    simp
  have hnew : ((burst limit client limit.requests).sweep (limit.window + 1)
      limit.window).2.bucketOf client (limit.window + 1) = limit.newBucket (limit.window + 1) := by
    rw [bucketOf, hforgotten, Option.getD_none]
    exact congrArg (Limit.newBucket · _) (limit_burst _ _ _)
  have hrange := hl.requests
  have hone : (1 : ℚ) ≤ limit.requests := by exact_mod_cast hr
  rw [sweepAbove, if_neg htracked, limit_burst, verdict_allowed hl _ hone]
  · rw [← Nat.cast_pred hr, near_natCast (by omega), Nat.floor_natCast, limit_sweep, limit_burst]
  · rw [hnew]
    exact (Bucket.Holds.newBucket hl _).refill_same hl (Nat.sub_self _)

/-- Without the sweep the next check has that verdict only when the bucket is full again. -/
theorem refills_of_check (hl : limit.InRange) (hr : 1 ≤ limit.requests)
    (h : ((burst limit client limit.requests).check client (limit.window + 1)).1
      = .allowed (limit.requests - 1) limit.requests) : limit.Refills := by
  obtain ⟨b, hb, hholds, hupdated⟩ := get?_burst hl hr client
  have hbucket : (burst limit client limit.requests).bucketOf client (limit.window + 1) = b := by
    rw [bucketOf, hb, Option.getD_some]
  have hshort := limit.short_past_window hl
  have hgain := (limit.stands_gain hl hshort).1.near_eq
  have hidle : Short (limit.window + 1 - b.updated) := by rwa [hupdated]
  have hrefill := hholds.refill_eq hl hidle
  rw [hupdated, Nat.sub_zero, zero_add, hgain] at hrefill
  rw [limit.refills_iff hl]
  by_contra hless
  rw [not_le] at hless
  rw [min_eq_left hless.le] at hrefill
  rw [← hbucket] at hrefill
  have hone : 1 ≤ limit.gain (limit.window + 1) := by
    rw [← hrefill.hasToken_iff, ← isAllowed_check, h]
    rfl
  have hrange : (limit.requests : ℚ) ≤ 2 ^ 32 := by exact_mod_cast hl.requests.le
  rw [verdict_allowed hl hrefill hone, near_sub_one hgain hone (by linarith)] at h
  have hshown : ⌊limit.gain (limit.window + 1) - 1⌋₊ = limit.requests - 1 :=
    (Verdict.allowed.inj h).1
  have hfloor := Nat.floor_le (sub_nonneg.2 hone)
  rw [hshown, Nat.cast_pred hr] at hfloor
  linarith

/-! ## Sweeps are not seen -/

theorem unseen_of_refills (hl : limit.InRange) (hf : limit.Refills) {calls : List (Call × Nanos)}
    (htimes : (calls.map Prod.snd).Pairwise (· ≤ ·)) :
    (new limit).verdicts (calls.filter fun c => c.1.isCheck) = (new limit).verdicts calls := by
  have hsame : Forgets 0 (new limit) (new limit) :=
    ⟨rfl, sound_new limit, fun client => .inl rfl⟩
  have hlate : ∀ c ∈ calls, 0 ≤ c.2 := fun c _ => Nat.zero_le c.2
  have hf' : (new limit).limit.Refills := hf
  exact hsame.verdicts_eq hl hf' hlate htimes

theorem refills_of_unseen (hl : limit.InRange)
    (h : ∀ calls : List (Call × Nanos), (calls.map Prod.snd).Pairwise (· ≤ ·) →
      (new limit).verdicts (calls.filter fun c => c.1.isCheck) = (new limit).verdicts calls) :
    limit.Refills := by
  rcases Nat.eq_zero_or_pos limit.requests with h0 | hr
  · rw [limit.refills_iff hl, h0, Nat.cast_zero]
    exact limit.gain_nonneg _
  · -- a client that was drained, once with and once without a sweep
    have htimes : ((List.replicate limit.requests (Call.check "", (0 : Nanos)) ++
        [(Call.sweepAbove 0, limit.window + 1), (Call.check "", limit.window + 1)]).map
          Prod.snd).Pairwise (· ≤ ·) := by
      rw [List.map_append, List.map_replicate, List.pairwise_append]
      refine ⟨List.pairwise_replicate.2 (.inr le_rfl), by simp, fun t ht u hu => ?_⟩
      rw [List.eq_of_mem_replicate ht]
      exact Nat.zero_le u
    have hrun := h _ htimes
    rw [List.filter_append, List.filter_replicate_of_pos rfl, verdicts_append, verdicts_append]
      at hrun
    have hlast := List.head_eq_of_cons_eq (List.append_cancel_left hrun)
    exact refills_of_check hl hr (hlast.trans (check_after_sweep hl hr ""))

/-- **Sweeping is not seen** by any run in the order of time exactly when a window and a nanosecond
fill the bucket, as they do for every span of less than `2 ^ 24` seconds. -/
theorem sweeping_unseen_iff (hl : limit.InRange) :
    ((∀ calls : List (Call × Nanos), (calls.map Prod.snd).Pairwise (· ≤ ·) →
      (new limit).verdicts (calls.filter fun c => c.1.isCheck) = (new limit).verdicts calls) ↔
        limit.Refills) ∧
      (limit.span < 2 ^ 24 → limit.Refills) := by
  refine ⟨⟨fun h => refills_of_unseen hl h, fun hf calls htimes => ?_⟩,
    limit.refills_of_span_lt hl⟩
  exact unseen_of_refills hl hf htimes

/-- Three clients that were swept away are not missed. -/
theorem sweeping_unseen_in_minutes :
    (new ⟨2, 60⟩).verdicts [(.check "ana", 0), (.check "bo", 0), (.check "dee", 61000000000),
        (.check "ana", 61000000000)] =
      (new ⟨2, 60⟩).verdicts [(.check "ana", 0), (.check "bo", 0), (.check "dee", 61000000000),
        (.sweepAbove 2, 61000000000), (.check "ana", 61000000000)] := by
  obtain ⟨hunseen, hspan⟩ := @sweeping_unseen_iff ⟨2, 60⟩ ⟨by decide, by decide⟩
  exact hunseen.2 (hspan (by decide)) [(.check "ana", 0), (.check "bo", 0),
    (.check "dee", 61000000000), (.sweepAbove 2, 61000000000), (.check "ana", 61000000000)]
    (by decide)

/-- After a window of 25690112 seconds and a nanosecond an empty bucket lacks a roundoff. -/
theorem sweeping_seen :
    (new ⟨1, 25690112⟩).verdicts [(.check "a", 0), (.check "a", 25690112000000001)] ≠
      (new ⟨1, 25690112⟩).verdicts [(.check "a", 0), (.sweepAbove 0, 25690112000000001),
        (.check "a", 25690112000000001)] := by
  decide +kernel

end Limiter

end ItemBudget.RateLimit
