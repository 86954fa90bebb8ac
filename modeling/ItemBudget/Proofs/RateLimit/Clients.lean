import ItemBudget.Proofs.RateLimit.Run
import Mathlib.Data.List.Dedup

/-!
# Clients apart

A check reads and writes the bucket of its own client only. So what a client is told in a run of
checks is what it would be told alone, at whatever times and in whatever order the others come, and
the limiter tracks each client once. `SeenAlike` relates two limiters that one client cannot tell
apart; the checks of that client, made in both, keep it, and so do those of the others, made in one.
-/

namespace ItemBudget.RateLimit.Limiter

open Time

/-- The run that checks clients, each at its time. -/
def checks (requests : List (String × Nanos)) : List (Call × Nanos) :=
  requests.map fun r => (.check r.1, r.2)

/-- The verdicts of one client in a run, in order. -/
def verdictsOf (client : String) (l : Limiter) : List (Call × Nanos) → List Verdict
  | [] => []
  | c :: calls =>
    (if c.1 = .check client then (l.call c.2 c.1).1.toList else [])
      ++ (l.call c.2 c.1).2.verdictsOf client calls

variable {l l' : Limiter} {client other : String} {now : ℕ}

theorem checks_cons (r : String × Nanos) (requests : List (String × Nanos)) :
    checks (r :: requests) = (.check r.1, r.2) :: checks requests :=
  rfl

theorem verdictsOf_check (l : Limiter) (client : String) (now : Nanos)
    (calls : List (Call × Nanos)) :
    l.verdictsOf client ((.check client, now) :: calls)
      = (l.check client now).1 :: (l.check client now).2.verdictsOf client calls := by
  rw [verdictsOf, if_pos rfl]
  rfl

theorem verdictsOf_check_of_ne (l : Limiter) (h : other ≠ client) (now : Nanos)
    (calls : List (Call × Nanos)) :
    l.verdictsOf client ((.check other, now) :: calls)
      = (l.check other now).2.verdictsOf client calls := by
  rw [verdictsOf, if_neg fun heq => h (Call.check.inj heq)]
  rfl

/-! ## What a client sees -/

/-- Two limiters that a client cannot tell apart: they have one limit and one bucket for it. -/
structure SeenAlike (client : String) (l l' : Limiter) : Prop where
  limit : l.limit = l'.limit
  bucket : l.buckets.get? client = l'.buckets.get? client

namespace SeenAlike

theorem bucketOf_eq (h : SeenAlike client l l') (now : ℕ) :
    l.bucketOf client now = l'.bucketOf client now := by
  rw [bucketOf, bucketOf, h.bucket, h.limit]

/-- A check of the client has one verdict in both. -/
theorem verdict_eq (h : SeenAlike client l l') (now : ℕ) :
    (l.check client now).1 = (l'.check client now).1 := by
  rw [check, check, h.bucketOf_eq now, h.limit]

/-- A check of the client in both keeps them alike. -/
theorem check (h : SeenAlike client l l') (now : ℕ) :
    SeenAlike client (l.check client now).2 (l'.check client now).2 where
  limit := h.limit
  bucket := by rw [get?_check, get?_check, h.bucketOf_eq now]

/-- A check of another client in one keeps them alike. -/
theorem check_other (h : SeenAlike client l l') (hne : other ≠ client) (now : ℕ) :
    SeenAlike client (l.check other now).2 l' where
  limit := h.limit
  bucket := (get?_buckets_check now hne.symm).trans h.bucket

/-- The verdicts of the client are those of a run with its checks alone. -/
theorem verdictsOf_eq (h : SeenAlike client l l') (requests : List (String × Nanos)) :
    l.verdictsOf client (checks requests)
      = l'.verdicts (checks (requests.filter (·.1 = client))) := by
  induction requests generalizing l l' with
  | nil => rfl
  | cons r requests ih =>
    obtain ⟨other, now⟩ := r
    by_cases ho : other = client
    · subst ho
      rw [List.filter_cons_of_pos (by simp), checks_cons, checks_cons, verdictsOf_check,
        verdicts_check, h.verdict_eq now, ih (h.check now)]
    · rw [List.filter_cons_of_neg (by simpa using ho), checks_cons, verdictsOf_check_of_ne l ho,
        ih (h.check_other ho now)]

end SeenAlike

/-! ## Who is tracked -/

theorem mem_keys_after {requests : List (String × Nanos)} :
    client ∈ (l.after (checks requests)).buckets.keys ↔
      client ∈ l.buckets.keys ∨ client ∈ requests.map Prod.fst := by
  induction requests generalizing l with
  | nil => simp [checks, after]
  | cons r requests ih =>
    have hstep : client ∈ (l.check r.1 r.2).2.buckets.keys ↔
        client = r.1 ∨ client ∈ l.buckets.keys := Table.mem_keys_insert
    show client ∈ ((l.check r.1 r.2).2.after (checks requests)).buckets.keys ↔ _
    rw [ih, hstep, List.map_cons, List.mem_cons]
    exact or_assoc.trans or_left_comm

/-- The clients tracked after a run of checks are the distinct ones that were checked. -/
theorem tracked_after (limit : Limit) (requests : List (String × Nanos)) :
    ((new limit).after (checks requests)).tracked = (requests.map Prod.fst).dedup.length := by
  have hkeys : ((new limit).after (checks requests)).buckets.keys.Perm
      (requests.map Prod.fst).dedup := by
    refine (List.perm_ext_iff_of_nodup (Table.nodup _) (List.nodup_dedup _)).2 fun client => ?_
    show client ∈ Table.keys _ ↔ _
    rw [mem_keys_after, List.mem_dedup]
    exact or_iff_right (nomatch ·)
  have hlength := hkeys.length_eq
  rwa [Table.keys, List.length_map] at hlength

/-- **Clients do not share tokens**: in every run of checks, at any times and in any order, a client
is told what it would be told if it were alone, and the clients tracked are as many as were
checked. -/
theorem clients_apart (limit : Limit) (requests : List (String × Nanos)) (client : String) :
    (new limit).verdictsOf client (checks requests)
      = (new limit).verdicts (checks (requests.filter (·.1 = client))) ∧
    ((new limit).after (checks requests)).tracked = (requests.map Prod.fst).dedup.length := by
  have halike : SeenAlike client (new limit) (new limit) := ⟨rfl, rfl⟩
  exact ⟨halike.verdictsOf_eq requests, tracked_after limit requests⟩

end ItemBudget.RateLimit.Limiter
