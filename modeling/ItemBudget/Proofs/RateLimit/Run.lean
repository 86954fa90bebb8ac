import ItemBudget.Proofs.RateLimit.Refill
import Mathlib.Data.List.Induction

/-!
# Runs of a limiter

A call is a check of a client or a sweep; a run is a list of calls, each at its time, and its
verdicts are the answers to the checks. In every run each bucket holds tokens of the limit
(`sound_after`). In a run without sweeps the bucket of a client was last used at the latest of its
checks (`updated_after`).
-/

namespace ItemBudget.RateLimit

open Double Time

/-- The request may go on. -/
def Verdict.isAllowed : Verdict → Bool
  | .allowed _ _ => true
  | .limited _ _ => false

namespace Limiter

/-- A call of a limiter. -/
inductive Call where
  | check (client : String)
  | sweepAbove (most : ℕ)
deriving DecidableEq

def Call.isCheck : Call → Bool
  | check _ => true
  | sweepAbove _ => false

/-- The verdict of a check, none for a sweep, and the limiter after the call. -/
def call (l : Limiter) (now : Nanos) : Call → Option Verdict × Limiter
  | .check client => ((l.check client now).1, (l.check client now).2)
  | .sweepAbove most => (none, (l.sweepAbove most now).2)

/-- The limiter at the end of a run. -/
def after (l : Limiter) (calls : List (Call × Nanos)) : Limiter :=
  calls.foldl (fun l c => (l.call c.2 c.1).2) l

/-- The verdicts of a run, in order. -/
def verdicts (l : Limiter) : List (Call × Nanos) → List Verdict
  | [] => []
  | c :: calls => (l.call c.2 c.1).1.toList ++ (l.call c.2 c.1).2.verdicts calls

variable {l : Limiter} {limit : Limit} {client : String} {τ : ℚ} {now : ℕ}

theorem after_append (l : Limiter) (xs ys : List (Call × Nanos)) :
    l.after (xs ++ ys) = (l.after xs).after ys :=
  List.foldl_append

theorem after_concat (l : Limiter) (calls : List (Call × Nanos)) (c : Call × Nanos) :
    l.after (calls ++ [c]) = ((l.after calls).call c.2 c.1).2 :=
  l.after_append calls [c]

theorem verdicts_check (l : Limiter) (client : String) (now : Nanos) (calls : List (Call × Nanos)) :
    l.verdicts ((.check client, now) :: calls)
      = (l.check client now).1 :: (l.check client now).2.verdicts calls :=
  rfl

theorem verdicts_sweepAbove (l : Limiter) (most : ℕ) (now : Nanos) (calls : List (Call × Nanos)) :
    l.verdicts ((.sweepAbove most, now) :: calls) = (l.sweepAbove most now).2.verdicts calls :=
  rfl

theorem verdicts_append (l : Limiter) (xs ys : List (Call × Nanos)) :
    l.verdicts (xs ++ ys) = l.verdicts xs ++ (l.after xs).verdicts ys := by
  induction xs generalizing l with
  | nil => rfl
  | cons c xs ih =>
    rw [List.cons_append, verdicts, ih, verdicts, List.append_assoc]
    rfl

/-! ## What a call changes -/

theorem get?_check (l : Limiter) (client : String) (now : ℕ) :
    (l.check client now).2.buckets.get? client = some ((l.bucketOf client now).consume now).2 := by
  simp only [check, Table.get?_insert, if_true]

theorem isAllowed_check (l : Limiter) (client : String) (now : ℕ) :
    (l.check client now).1.isAllowed = ((l.bucketOf client now).refill now).hasToken := by
  unfold check
  cases h : ((l.bucketOf client now).refill now).hasToken with
  | true =>
    rw [Bucket.consume_of_hasToken h]
    rfl
  | false =>
    rw [Bucket.consume_of_empty h]
    rfl

/-- A check that finds a token takes it. -/
theorem verdict_allowed (hl : limit.InRange)
    (h : ((l.bucketOf client now).refill now).Holds limit τ) (hτ : 1 ≤ τ) :
    (l.check client now).1 = .allowed ⌊near (τ - 1)⌋₊ l.limit.requests := by
  obtain ⟨htaken, hkeep⟩ := h.consume_taken hl hτ
  rw [← hkeep.remaining hl]
  unfold check
  simp only [htaken, if_true]

/-- A refused check tells the wait of the refilled bucket and keeps that bucket. -/
theorem bucket_of_limited {wait : Option Nanos} {requests : ℕ}
    (h : (l.check client now).1 = .limited wait requests) :
    ((l.bucketOf client now).refill now).hasToken = false ∧
      wait = ((l.bucketOf client now).refill now).wait? ∧
      (l.check client now).2.buckets.get? client = some ((l.bucketOf client now).refill now) := by
  have hempty : ((l.bucketOf client now).refill now).hasToken = false := by
    rw [← isAllowed_check, h]
    rfl
  rw [get?_check, Bucket.consume_of_empty hempty]
  unfold check at h
  rw [Bucket.consume_of_empty hempty] at h
  cases h
  exact ⟨hempty, rfl, rfl⟩

theorem get?_sweep (l : Limiter) (now idle : ℕ) (client : String) :
    (l.sweep now idle).2.buckets.get? client =
      (l.buckets.get? client).filter fun b => now ≤ b.updated + idle :=
  Table.get?_filter _ _ _

@[simp]
theorem limit_sweep (l : Limiter) (now idle : ℕ) : (l.sweep now idle).2.limit = l.limit := rfl

/-- A sweep tells how many clients were idle for longer, and these are the ones it forgets. -/
theorem count_sweep (l : Limiter) (now idle : ℕ) :
    (l.sweep now idle).1 = l.buckets.entries.countP (fun e => e.2.updated + idle < now) ∧
      (l.sweep now idle).1 + (l.sweep now idle).2.tracked = l.tracked := by
  have hkept : l.buckets.entries.countP (fun e => now ≤ e.2.updated + idle) =
      (l.sweep now idle).2.tracked := List.countP_eq_length_filter
  have hall : l.tracked = (l.sweep now idle).2.tracked +
      l.buckets.entries.countP fun e => e.2.updated + idle < now := by
    rw [← hkept, tracked, Table.size,
      List.length_eq_countP_add_countP fun e => decide (now ≤ e.2.updated + idle)]
    simp only [decide_eq_true_eq, not_le]
  have hcount : (l.sweep now idle).1 = l.tracked - (l.sweep now idle).2.tracked := rfl
  omega

/-- A sweep leaves the buckets or forgets those that were idle for longer than a window. -/
theorem sweepAbove_cases (l : Limiter) (most now : ℕ) :
    l.sweepAbove most now = (0, l) ∨ l.sweepAbove most now = l.sweep now l.limit.window := by
  unfold sweepAbove
  split
  · exact .inl rfl
  · exact .inr rfl

theorem limit_call (l : Limiter) (now : ℕ) (c : Call) : (l.call now c).2.limit = l.limit := by
  cases c with
  | check client => rfl
  | sweepAbove most =>
    rcases l.sweepAbove_cases most now with h | h
    · rw [call, h]
    · rw [call, h, limit_sweep]

theorem limit_after (l : Limiter) (calls : List (Call × Nanos)) :
    (l.after calls).limit = l.limit := by
  induction calls using List.reverseRecOn with
  | nil => rfl
  | append_singleton calls c ih => rw [after_concat, limit_call, ih]

/-! ## What the buckets hold -/

/-- Every bucket holds tokens of the limit. -/
def Sound (l : Limiter) : Prop :=
  ∀ client b, l.buckets.get? client = some b → ∃ τ, b.Holds l.limit τ

theorem sound_new (limit : Limit) : (new limit).Sound := by
  intro client b h
  cases h

theorem Sound.bucketOf (hl : l.limit.InRange) (h : l.Sound) (client : String) (now : ℕ) :
    ∃ τ, (l.bucketOf client now).Holds l.limit τ := by
  unfold Limiter.bucketOf
  cases hb : l.buckets.get? client with
  | none => exact ⟨_, .newBucket hl now⟩
  | some b => exact h client b hb

theorem Sound.call (hl : l.limit.InRange) (h : l.Sound) (now : ℕ) (c : Call) :
    (l.call now c).2.Sound := by
  intro client b hb
  rw [limit_call]
  cases c with
  | check other =>
    by_cases ho : client = other
    · subst ho
      rw [Limiter.call, get?_check] at hb
      cases hb
      obtain ⟨τ, hτ⟩ := h.bucketOf hl client now
      exact hτ.consume hl now
    · rw [Limiter.call, get?_buckets_check now ho] at hb
      exact h client b hb
  | sweepAbove most =>
    rw [Limiter.call] at hb
    rcases l.sweepAbove_cases most now with hs | hs
    · rw [hs] at hb
      exact h client b hb
    · rw [hs, get?_sweep, Option.filter_eq_some_iff] at hb
      exact h client b hb.1

theorem sound_after {limit : Limit} (hl : limit.InRange) (calls : List (Call × Nanos)) :
    ((new limit).after calls).Sound := by
  induction calls using List.reverseRecOn with
  | nil => exact sound_new limit
  | append_singleton calls c ih =>
    rw [after_concat]
    refine ih.call ?_ c.2 c.1
    rw [limit_after]
    exact hl

/-! ## When a bucket was used -/

/-- The latest time of the checks of a client. -/
def lastUse (client : String) (calls : List (Call × Nanos)) : ℕ :=
  calls.foldl (fun t c => if c.1 = .check client then max t c.2 else t) 0

theorem lastUse_concat (client : String) (calls : List (Call × Nanos)) (c : Call × Nanos) :
    lastUse client (calls ++ [c]) =
      if c.1 = .check client then max (lastUse client calls) c.2 else lastUse client calls := by
  rw [lastUse, List.foldl_append]
  rfl

theorem updated_after (limit : Limit) (client : String) {calls : List (Call × Nanos)}
    (h : ∀ c ∈ calls, c.1.isCheck = true) :
    (((new limit).after calls).buckets.get? client).elim 0 Bucket.updated
      = lastUse client calls := by
  induction calls using List.reverseRecOn with
  | nil => rfl
  | append_singleton calls c ih =>
    obtain ⟨kind, now⟩ := c
    have hcalls := ih fun c hc => h c (List.mem_append_left _ hc)
    have hkind := h (kind, now) (List.mem_append_right _ (List.mem_singleton_self _))
    cases kind with
    | sweepAbove most => cases hkind
    | check other =>
      rw [after_concat, lastUse_concat, ← hcalls]
      by_cases ho : other = client
      · subst ho
        rw [if_pos rfl, call, get?_check, Option.elim_some, Bucket.updated_consume, bucketOf]
        cases ((new limit).after calls).buckets.get? other with
        | none => exact (max_self now).trans (Nat.zero_max now).symm
        | some b => rfl
      · rw [if_neg (by simpa using ho), call, get?_buckets_check now (Ne.symm ho)]

/-- Checks of other clients leave a bucket. -/
theorem get?_after_of_ne (l : Limiter) {client : String} {others : List (Call × Nanos)}
    (h : ∀ c ∈ others, c.1.isCheck = true ∧ c.1 ≠ .check client) :
    (l.after others).buckets.get? client = l.buckets.get? client := by
  induction others using List.reverseRecOn with
  | nil => rfl
  | append_singleton others c ih =>
    obtain ⟨kind, now⟩ := c
    obtain ⟨hkind, hne⟩ := h (kind, now) (List.mem_append_right _ (List.mem_singleton_self _))
    cases kind with
    | sweepAbove most => cases hkind
    | check other =>
      have ho : client ≠ other := by
        rintro rfl
        exact hne rfl
      rw [after_concat, call, get?_buckets_check now ho]
      exact ih fun c hc => h c (List.mem_append_left _ hc)

theorem bucketOf_after_of_ne {client : String} {b : Bucket} {others : List (Call × Nanos)}
    (hb : l.buckets.get? client = some b)
    (h : ∀ c ∈ others, c.1.isCheck = true ∧ c.1 ≠ .check client) (now : ℕ) :
    (l.after others).bucketOf client now = b := by
  rw [bucketOf, l.get?_after_of_ne h, hb, Option.getD_some]

end Limiter

end ItemBudget.RateLimit
