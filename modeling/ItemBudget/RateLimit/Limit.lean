import ItemBudget.Time.Duration

/-!
# Rate limits

A limit allows a number of requests in a span of seconds, per client. It gives tokens at an even
rate, so many that an empty bucket is full again after that span.
-/

namespace ItemBudget.RateLimit

/-- So many requests per so many seconds. Both are below 2^32. -/
structure Limit where
  requests : Nat
  perSeconds : Nat
deriving DecidableEq, Repr

namespace Limit

/-- The span of a limit in seconds, at least one. -/
def span (l : Limit) : Nat := max l.perSeconds 1

/-- The time in which an empty bucket becomes full. -/
def window (l : Limit) : Time.Nanos := l.span * Time.nanosPerSecond

/-- The tokens that a second gives. -/
def rate (l : Limit) : Float := Float.ofNat l.requests / Float.ofNat l.span

end Limit

end ItemBudget.RateLimit
