import ItemBudget.Proofs.RateLimit.Waiting

/-!
# Limits hold

Whatever is done to a limiter, in any order of times and with sweeps of any idle time, each bucket
has from 0 tokens to the capacity, was last used at the latest check since it was made, and tells a
wait; a check that is let in leaves less than the capacity, and one that is refused is told a wait.
-/

namespace ItemBudget.RateLimit

open Double Time

namespace Bucket.Holds

variable {l : Limit} {b : Bucket} {τ : ℚ} {now : ℕ}

theorem tokens_bounds (hl : l.InRange) (h : b.Holds l τ) :
    0.0 ≤ b.tokens ∧ b.tokens ≤ Float.ofNat l.requests :=
  ⟨(stands_zero.le_iff h.tokens).2 h.tokens.nonneg,
    (h.tokens.le_iff hl.stands_requests).2 h.le⟩

/-- The time to wait is always a duration: under a limit that allows nothing it is none at all. -/
theorem isSome_wait? (hl : l.InRange) (h : b.Holds l τ) : b.wait?.isSome = true := by
  unfold wait?
  split
  · rfl
  · next hwait =>
    rw [Bool.or_eq_true, not_or, h.hasToken_iff, not_le, decide_eq_true_eq, h.rate,
      (l.stands_rate hl).le_iff stands_zero] at hwait
    have hr : 1 ≤ l.requests := by
      by_contra hnone
      refine hwait.2 (le_of_eq ?_)
      rw [Limit.pace, Nat.lt_one_iff.1 (not_le.1 hnone), Nat.cast_zero, zero_div, near_zero]
    obtain ⟨hw, hlimit⟩ := h.stands_wait hl hr hwait.1
    rw [ofSeconds?_eq hw (by linarith)]
    rfl

/-- A token that is taken leaves fewer than the capacity. -/
theorem floor_take_lt (hl : l.InRange) (h : b.Holds l τ) (hτ : 1 ≤ τ) :
    ⌊near (τ - 1)⌋₊ < l.requests := by
  have hr : 1 ≤ l.requests := by exact_mod_cast hτ.trans h.le
  have hrange := hl.requests
  have hle : near (τ - 1) ≤ ((l.requests - 1 : ℕ) : ℚ) := by
    rw [← near_natCast (n := l.requests - 1) (by omega)]
    refine near_mono (by linarith) ?_
    rw [Nat.cast_pred hr]
    linarith [h.le]
  have hfloor : ⌊near (τ - 1)⌋₊ ≤ l.requests - 1 := Nat.floor_le_of_le hle
  omega

end Bucket.Holds

namespace Limiter

variable {limit : Limit} {l : Limiter} {client : String} {b : Bucket} {now : ℕ}

/-! ## Verdicts -/

theorem Sound.remaining_lt (hl : l.limit.InRange) (h : l.Sound) {n requests : ℕ}
    (hv : (l.check client now).1 = .allowed n requests) : n < l.limit.requests := by
  obtain ⟨τ, hτ⟩ := h.bucketOf hl client now
  obtain ⟨τ', hτ'⟩ := hτ.refill hl now
  have htoken : 1 ≤ τ' := by
    rw [← hτ'.hasToken_iff, ← isAllowed_check, hv]
    rfl
  rw [verdict_allowed hl hτ' htoken] at hv
  cases hv
  exact hτ'.floor_take_lt hl htoken

theorem Sound.isSome_wait (hl : l.limit.InRange) (h : l.Sound) {wait : Option Nanos}
    {requests : ℕ} (hv : (l.check client now).1 = .limited wait requests) : wait.isSome = true := by
  obtain ⟨τ, hτ⟩ := h.bucketOf hl client now
  obtain ⟨τ', hτ'⟩ := hτ.refill hl now
  obtain ⟨-, rfl, -⟩ := bucket_of_limited hv
  exact hτ'.isSome_wait? hl

/-! ## Uses -/

/-- What is done to a limiter: a call, or a sweep of the clients that were idle for longer than some
time. -/
inductive Use where
  | call (c : Call)
  | sweep (idle : Nanos)
deriving DecidableEq

/-- The limiter after a use. -/
def use (l : Limiter) (now : Nanos) : Use → Limiter
  | .call c => (l.call now c).2
  | .sweep idle => (l.sweep now idle).2

/-- The limiter after uses in order, each at its time. -/
def afterUses (l : Limiter) (uses : List (Use × Nanos)) : Limiter :=
  uses.foldl (fun l u => l.use u.2 u.1) l

theorem afterUses_concat (l : Limiter) (uses : List (Use × Nanos)) (u : Use × Nanos) :
    l.afterUses (uses ++ [u]) = (l.afterUses uses).use u.2 u.1 :=
  List.foldl_append

theorem limit_afterUses (l : Limiter) (uses : List (Use × Nanos)) :
    (l.afterUses uses).limit = l.limit := by
  induction uses using List.reverseRecOn with
  | nil => rfl
  | append_singleton uses u ih =>
    obtain ⟨kind, now⟩ := u
    rw [afterUses_concat, ← ih]
    cases kind with
    | call c => exact limit_call _ _ _
    | sweep idle => rfl

theorem Sound.sweep (h : l.Sound) (now idle : ℕ) : (l.sweep now idle).2.Sound := by
  intro client b hb
  rw [get?_sweep, Option.filter_eq_some_iff] at hb
  exact h client b hb.1

theorem sound_afterUses (hl : limit.InRange) (uses : List (Use × Nanos)) :
    ((new limit).afterUses uses).Sound := by
  induction uses using List.reverseRecOn with
  | nil => exact sound_new limit
  | append_singleton uses u ih =>
    obtain ⟨kind, now⟩ := u
    rw [afterUses_concat]
    cases kind with
    | call c =>
      refine ih.call ?_ now c
      rw [limit_afterUses]
      exact hl
    | sweep idle => exact ih.sweep now idle

/-! ## The life of a bucket -/

/-- A use that checks no client but others leaves the bucket of the client or forgets it. -/
theorem get?_of_use {kind : Use} (hkind : kind ≠ .call (.check client))
    (hb : (l.use now kind).buckets.get? client = some b) : l.buckets.get? client = some b := by
  cases kind with
  | sweep idle =>
    rw [use, get?_sweep, Option.filter_eq_some_iff] at hb
    exact hb.1
  | call c =>
    cases c with
    | check other =>
      have hne : client ≠ other := by
        rintro rfl
        exact hkind rfl
      rwa [use, call, get?_buckets_check now hne] at hb
    | sweepAbove most =>
      rw [use, call] at hb
      rcases l.sweepAbove_cases most now with hs | hs
      · rwa [hs] at hb
      · rw [hs, get?_sweep, Option.filter_eq_some_iff] at hb
        exact hb.1

/-- The times of the checks of a client, in order. -/
def checkTimes (client : String) (uses : List (Use × Nanos)) : List Nanos :=
  uses.filterMap fun u => if u.1 = .call (.check client) then some u.2 else none

theorem checkTimes_concat (uses : List (Use × Nanos)) (kind : Use) (now : Nanos) :
    checkTimes client (uses ++ [(kind, now)]) =
      checkTimes client uses ++ if kind = .call (.check client) then [now] else [] := by
  unfold checkTimes
  rw [List.filterMap_append]
  split
  · next h => simp [h]
  · next h => simp [h]

/-- A check between two parts of a run that made the bucket a client has at its end: there was none
before, and from then on there always was one. -/
structure Made (limit : Limit) (client : String) (earlier : List (Use × Nanos)) (time : Nanos)
    (later : List (Use × Nanos)) : Prop where
  absent : ((new limit).afterUses earlier).buckets.get? client = none
  kept : ∀ part, part <+: later →
    (((new limit).afterUses (earlier ++ (.call (.check client), time) :: part)).buckets.get?
      client).isSome = true

namespace Made

variable {earlier later : List (Use × Nanos)} {time : Nanos}

/-- A check of a client without a bucket makes one. -/
theorem last {uses : List (Use × Nanos)}
    (h : ((new limit).afterUses uses).buckets.get? client = none) (time : Nanos) :
    Made limit client uses time [] where
  absent := h
  kept part hpart := by
    rw [List.prefix_nil.1 hpart, afterUses_concat, use, call, get?_check]
    rfl

/-- A use after which there is still a bucket keeps it. -/
theorem concat (h : Made limit client earlier time later) {u : Use × Nanos}
    (hb : ((new limit).afterUses
      (earlier ++ (.call (.check client), time) :: later ++ [u])).buckets.get? client = some b) :
    Made limit client earlier time (later ++ [u]) where
  absent := h.absent
  kept part hpart := by
    rcases List.prefix_concat_iff.1 hpart with rfl | hpart
    · rw [← List.cons_append, ← List.append_assoc, hb]
      rfl
    · exact h.kept part hpart

end Made

/-- Each bucket was made by a check, and the latest check of its client from then on was the last
use of it. -/
theorem exists_made {uses : List (Use × Nanos)}
    (hb : ((new limit).afterUses uses).buckets.get? client = some b) :
    ∃ earlier time later, uses = earlier ++ (.call (.check client), time) :: later ∧
      Made limit client earlier time later ∧
      (checkTimes client later).foldl max time = b.updated := by
  induction uses using List.reverseRecOn generalizing b with
  | nil => cases hb
  | append_singleton uses u ih =>
    obtain ⟨kind, now⟩ := u
    have hlast := hb
    rw [afterUses_concat] at hlast
    by_cases hkind : kind = .call (.check client)
    · subst hkind
      rw [use, call, get?_check, Option.some_inj, bucketOf] at hlast
      cases hold : ((new limit).afterUses uses).buckets.get? client with
      | none =>
        refine ⟨uses, now, [], rfl, .last hold now, ?_⟩
        rw [← hlast, hold, Option.getD_none, Bucket.updated_consume]
        exact (max_self now).symm
      | some old =>
        obtain ⟨earlier, time, later, rfl, hmade, hupdated⟩ := ih hold
        refine ⟨earlier, time, later ++ [(.call (.check client), now)], by simp, hmade.concat hb,
          ?_⟩
        rw [← hlast, hold, Option.getD_some, Bucket.updated_consume, ← hupdated, checkTimes_concat,
          if_pos rfl, List.foldl_append]
        rfl
    · obtain ⟨earlier, time, later, rfl, hmade, hupdated⟩ := ih (get?_of_use hkind hlast)
      refine ⟨earlier, time, later ++ [(kind, now)], by simp, hmade.concat hb, ?_⟩
      rw [checkTimes_concat, if_neg hkind, List.append_nil, hupdated]

end Limiter

end ItemBudget.RateLimit
