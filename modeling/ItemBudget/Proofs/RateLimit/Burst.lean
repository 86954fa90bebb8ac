import ItemBudget.Proofs.RateLimit.Clients

/-!
# Bursts

While no time passes a bucket gives exactly its tokens: they are a whole number, each check takes
one, and a check at an earlier time than the last adds none. `Stocked` says how many tokens a client
has left and when its bucket was last used; a check at no later time takes one (`Stocked.check`). A
client that is never checked later than at first is let in as often as the limit allows and then
refused, whatever the other clients do (`burst_exact`).
-/

namespace ItemBudget.RateLimit

open Double Time

/-- The verdict that a bucket with so many whole tokens gives under a limit. -/
def Verdict.OfStock (requests k : ℕ) (v : Verdict) : Prop :=
  if 1 ≤ k then v = .allowed (k - 1) requests else v.isAllowed = false

/-- Without time a bucket gives a whole token, if there is one. -/
theorem Bucket.Holds.consume_still {l : Limit} {b : Bucket} {k now : ℕ} (hl : l.InRange)
    (h : b.Holds l k) (hnow : now ≤ b.updated) :
    (b.consume now).1 = decide (1 ≤ k) ∧ (b.consume now).2.Holds l (k - 1 : ℕ) ∧
      (b.consume now).2.updated = b.updated := by
  have hsame := h.refill_same hl (Nat.sub_eq_zero_of_le hnow)
  have hupdated : (b.consume now).2.updated = b.updated := by
    rw [updated_consume, max_eq_left hnow]
  by_cases hk : 1 ≤ k
  · have hone : (1 : ℚ) ≤ k := by exact_mod_cast hk
    have hfew : k ≤ l.requests := by exact_mod_cast h.le
    have hrange := hl.requests
    obtain ⟨htaken, hkeep⟩ := hsame.consume_taken hl hone
    rw [← Nat.cast_pred hk, near_natCast (by omega)] at hkeep
    exact ⟨by rw [htaken, decide_eq_true hk], hkeep, hupdated⟩
  · obtain rfl : k = 0 := by omega
    have hempty : (b.refill now).hasToken = false := by
      rw [Bool.eq_false_iff, ne_eq, hsame.hasToken_iff, Nat.cast_zero, not_le]
      exact one_pos
    rw [consume_of_empty hempty] at hupdated ⊢
    exact ⟨rfl, hsame, hupdated⟩

namespace Limiter

variable {limit : Limit} {l : Limiter} {client : String} {k t now : ℕ}

/-! ## What a client has left -/

/-- A client's bucket has so many whole tokens and was last used at a time. -/
def Stocked (l : Limiter) (client : String) (k : ℕ) (t : Nanos) : Prop :=
  ∃ b, l.buckets.get? client = some b ∧ b.Holds l.limit k ∧ b.updated = t

theorem check_still (hl : l.limit.InRange) {b : Bucket} (hb : l.bucketOf client now = b)
    (h : b.Holds l.limit k) (hnow : now ≤ b.updated) :
    (l.check client now).1.OfStock l.limit.requests k ∧
      Stocked (l.check client now).2 client (k - 1) b.updated := by
  obtain ⟨htaken, hkeep, hupdated⟩ := h.consume_still hl hnow
  subst hb
  refine ⟨?_, _, get?_check l client now, hkeep, hupdated⟩
  unfold Verdict.OfStock check
  dsimp only
  rw [htaken]
  by_cases hk : 1 ≤ k
  · rw [decide_eq_true hk, if_pos rfl, if_pos hk, hkeep.remaining hl, Nat.floor_natCast]
  · rw [decide_eq_false hk, if_neg Bool.false_ne_true, if_neg hk]
    rfl

/-- The first check of a client takes a token of a full bucket. -/
theorem check_first (hl : limit.InRange) (client : String) (t : Nanos) :
    ((new limit).check client t).1.OfStock limit.requests limit.requests ∧
      Stocked ((new limit).check client t).2 client (limit.requests - 1) t :=
  check_still (l := new limit) hl rfl (.newBucket hl t) le_rfl

/-- A check at no later time than the last takes a token. -/
theorem Stocked.check (hl : l.limit.InRange) (h : Stocked l client k t) (hnow : now ≤ t) :
    (l.check client now).1.OfStock l.limit.requests k ∧
      Stocked (l.check client now).2 client (k - 1) t := by
  obtain ⟨b, hb, hk, rfl⟩ := h
  have hbucket : l.bucketOf client now = b := by rw [bucketOf, hb, Option.getD_some]
  exact check_still hl hbucket hk hnow

/-! ## Bursts -/

/-- The run that checks one client at the given times. -/
def checksOf (client : String) (times : List Nanos) : List (Call × Nanos) :=
  times.map fun t => (.check client, t)

theorem Stocked.after (hl : l.limit.InRange) (h : Stocked l client k t) {times : List Nanos}
    (htimes : ∀ u ∈ times, u ≤ t) :
    Stocked (l.after (checksOf client times)) client (k - times.length) t := by
  induction times generalizing l k with
  | nil => exact h
  | cons u times ih =>
    rw [List.forall_mem_cons] at htimes
    rw [List.length_cons, Nat.add_comm, ← Nat.sub_sub]
    exact ih (l := (l.check client u).2) hl (h.check hl htimes.1).2 htimes.2

theorem Stocked.verdicts (hl : l.limit.InRange) (h : Stocked l client k t) {times : List Nanos}
    (htimes : ∀ u ∈ times, u ≤ t) {i : ℕ} {v : Verdict}
    (hv : (l.verdicts (checksOf client times))[i]? = some v) :
    v.OfStock l.limit.requests (k - i) := by
  induction times generalizing l k i with
  | nil => cases hv
  | cons u times ih =>
    rw [List.forall_mem_cons] at htimes
    obtain ⟨hverdict, hnext⟩ := h.check hl htimes.1
    cases i with
    | zero => cases hv; exact hverdict
    | succ i =>
      rw [Nat.add_comm, ← Nat.sub_sub]
      exact ih (l := (l.check client u).2) hl hnext htimes.2 hv

/-- A burst of one client alone. -/
theorem verdicts_burst (hl : limit.InRange) (client : String) {times : List Nanos}
    (htimes : ∀ first ∈ times.head?, ∀ t ∈ times, t ≤ first) {i : ℕ} {v : Verdict}
    (hv : ((new limit).verdicts (checksOf client times))[i]? = some v) :
    v.OfStock limit.requests (limit.requests - i) := by
  cases times with
  | nil => cases hv
  | cons first times =>
    obtain ⟨hverdict, hnext⟩ := check_first hl client first
    cases i with
    | zero => cases hv; exact hverdict
    | succ i =>
      have hstill : ∀ t ∈ times, t ≤ first := fun t ht =>
        htimes first rfl t (List.mem_cons_of_mem _ ht)
      rw [Nat.add_comm, ← Nat.sub_sub]
      exact hnext.verdicts (l := ((new limit).check client first).2) hl hstill hv

/-- The times at which a client asks, in order. -/
def timesOf (client : String) (requests : List (String × Nanos)) : List Nanos :=
  (requests.filter (·.1 = client)).map Prod.snd

theorem checks_filter (client : String) (requests : List (String × Nanos)) :
    checks (requests.filter (·.1 = client)) = checksOf client (timesOf client requests) := by
  rw [checks, checksOf, timesOf, List.map_map]
  refine List.map_congr_left fun r hr => ?_
  obtain rfl : r.1 = client := of_decide_eq_true (List.mem_filter.1 hr).2
  rfl

theorem length_verdicts_checksOf (l : Limiter) (client : String) (times : List Nanos) :
    (l.verdicts (checksOf client times)).length = times.length := by
  induction times generalizing l with
  | nil => rfl
  | cons t times ih => exact congrArg Nat.succ (ih _)

/-- **The burst is exact**: in a run of checks in which a client is never checked later than at
first, each of its checks has a verdict; as many as the limit allows are let in, the first of them
with all but one token left and each with one token less than the one before, and all after them are
refused. -/
theorem burst_exact (hl : limit.InRange) {requests : List (String × Nanos)} {client : String}
    (hstill : ∀ first ∈ (timesOf client requests).head?, ∀ t ∈ timesOf client requests, t ≤ first) :
    ((new limit).verdictsOf client (checks requests)).length = (timesOf client requests).length ∧
      ∀ i v, ((new limit).verdictsOf client (checks requests))[i]? = some v →
        (i < limit.requests → v = .allowed (limit.requests - (i + 1)) limit.requests) ∧
        (limit.requests ≤ i → v.isAllowed = false) := by
  have halike : SeenAlike client (new limit) (new limit) := ⟨rfl, rfl⟩
  rw [halike.verdictsOf_eq, checks_filter]
  refine ⟨length_verdicts_checksOf _ _ _, fun i v hv => ?_⟩
  have hstock := verdicts_burst hl client hstill hv
  unfold Verdict.OfStock at hstock
  refine ⟨fun hi => ?_, fun hi => ?_⟩
  · rwa [if_pos (by omega), Nat.sub_sub] at hstock
  · rwa [if_neg (by omega)] at hstock

/-- Of three requests of `a` the last is refused, though `b` asks in between and the clock goes
back. -/
theorem burst_of_two :
    ((new ⟨2, 60⟩).verdictsOf "a" (checks [("a", 5), ("b", 9), ("a", 3), ("a", 5)])).length = 3 ∧
      ∀ v, ((new ⟨2, 60⟩).verdictsOf "a" (checks [("a", 5), ("b", 9), ("a", 3), ("a", 5)]))[2]?
        = some v → v.isAllowed = false := by
  obtain ⟨hlength, hburst⟩ := @burst_exact ⟨2, 60⟩ ⟨by decide, by decide⟩
    [("a", 5), ("b", 9), ("a", 3), ("a", 5)] "a" (by decide)
  exact ⟨hlength, fun v hv => (hburst 2 v hv).2 (by decide)⟩

end Limiter

end ItemBudget.RateLimit
