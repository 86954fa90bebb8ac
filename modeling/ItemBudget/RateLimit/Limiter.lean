import ItemBudget.RateLimit.Bucket
import ItemBudget.RateLimit.Limit
import ItemBudget.Table

/-!
# Rate limiters

A limiter keeps a bucket for every client that it has checked. A client without a bucket starts with
a full one, so a bucket that would be full again may be forgotten: `sweepAbove` forgets those that
nobody used for a whole window.
-/

namespace ItemBudget.RateLimit

/-- The buckets of the clients under one limit. -/
structure Limiter where
  limit : Limit
  buckets : Table Bucket
deriving DecidableEq

/-- The answer to a request. It tells the number of requests of the limit, too. -/
inductive Verdict where
  /-- The request may go on; so many more could at once. -/
  | allowed (remaining limit : Nat)
  /-- The request is refused; a token comes after the wait. -/
  | limited (wait : Option Time.Nanos) (limit : Nat)
deriving DecidableEq, Repr

/-- The bucket that a client starts with. -/
def Limit.newBucket (l : Limit) (now : Time.Nanos) : Bucket :=
  .full (Float.ofNat l.requests) l.rate now

namespace Limiter

/-- The limiter that has seen no client. -/
def new (limit : Limit) : Limiter := ⟨limit, ∅⟩

/-- The bucket of a client. -/
def bucketOf (l : Limiter) (client : String) (now : Time.Nanos) : Bucket :=
  (l.buckets.get? client).getD (l.limit.newBucket now)

/-- Answers a request, which takes a token if there is one. -/
def check (l : Limiter) (client : String) (now : Time.Nanos) : Verdict × Limiter :=
  let (taken, bucket) := (l.bucketOf client now).consume now
  (if taken then .allowed bucket.remaining l.limit.requests
    else .limited bucket.wait? l.limit.requests,
    { l with buckets := l.buckets.insert client bucket })

/-- A check changes no other client's bucket. -/
theorem get?_buckets_check {l : Limiter} {client other : String} (now : Time.Nanos)
    (h : other ≠ client) :
    (l.check client now).2.buckets.get? other = l.buckets.get? other := by
  simp only [check, Table.get?_insert, h, if_false]

/-- How many clients have a bucket. -/
def tracked (l : Limiter) : Nat := l.buckets.size

/-- Forgets the clients that were idle for longer than `idle`; the answer is how many. -/
def sweep (l : Limiter) (now idle : Time.Nanos) : Nat × Limiter :=
  let kept := l.buckets.filter fun b => now ≤ b.updated + idle
  (l.tracked - kept.size, { l with buckets := kept })

/-- Forgets the clients that were idle for longer than a window, if there are more than `most`; the
answer is how many. -/
def sweepAbove (l : Limiter) (most : Nat) (now : Time.Nanos) : Nat × Limiter :=
  if l.tracked ≤ most then (0, l) else l.sweep now l.limit.window

end Limiter

end ItemBudget.RateLimit
