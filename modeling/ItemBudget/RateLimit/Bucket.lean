import ItemBudget.Decimal.Binary
import ItemBudget.Time.Duration

/-!
# Token buckets

A bucket fills with tokens at an even rate up to its capacity, and a request takes one token. Times
are nanoseconds of a clock; a time before the last one counts as that one.
-/

namespace ItemBudget.RateLimit

/-- The tokens of one client. -/
structure Bucket where
  tokens : Float
  /-- The most tokens that the bucket holds. -/
  capacity : Float
  /-- The tokens that a second adds. -/
  rate : Float
  /-- The latest time at which the bucket was used. -/
  updated : Time.Nanos
deriving DecidableEq

/-- The smaller of two numbers; one that is NaN does not count. -/
def smaller (x y : Float) : Float := if x.isNaN || y < x then y else x

/-- The most whole tokens that are shown. -/
def mostShown : Nat := Nat.pow 2 32 - 1

/-- The whole part of a number of tokens, from 0 to `mostShown`; NaN shows none. -/
def wholeTokens (x : Float) : Nat :=
  match Decimal.reading x with
  | .finite false m e => min mostShown (m * Nat.pow 2 e.toNat / Nat.pow 2 (-e).toNat)
  | .infinite false => mostShown
  | _ => 0

namespace Bucket

/-- A full bucket. -/
def full (capacity rate : Float) (now : Time.Nanos) : Bucket := ⟨capacity, capacity, rate, now⟩

/-- The bucket with the tokens that came up to `now`. -/
def refill (b : Bucket) (now : Time.Nanos) : Bucket :=
  { b with
    tokens := smaller (b.tokens + Time.toSeconds (now - b.updated) * b.rate) b.capacity
    updated := max b.updated now }

/-- The bucket has a whole token. -/
def hasToken (b : Bucket) : Bool := 1.0 ≤ b.tokens

/-- Takes a token if there is one, and says whether there was. -/
def consume (b : Bucket) (now : Time.Nanos) : Bool × Bucket :=
  let b := b.refill now
  if b.hasToken then (true, { b with tokens := b.tokens - 1.0 }) else (false, b)

/-- A use sets the time to the later one, whether or not it takes a token. -/
theorem updated_consume (b : Bucket) (now : Time.Nanos) :
    (b.consume now).2.updated = max b.updated now := by
  simp only [consume]
  split <;> rfl

/-- The whole tokens that are left. -/
def remaining (b : Bucket) : Nat := wholeTokens b.tokens

/-- The time until there is a token; none when no duration is that long. A bucket that has a token,
or that does not fill, tells no time to wait. -/
def wait? (b : Bucket) : Option Time.Nanos :=
  if b.hasToken || b.rate ≤ 0.0 then some 0 else Time.ofSeconds? ((1.0 - b.tokens) / b.rate)

end Bucket

end ItemBudget.RateLimit
