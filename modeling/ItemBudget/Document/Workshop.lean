import ItemBudget.Document.View
import ItemBudget.Json.Node
import ItemBudget.Workshop.Settings

/-!
# Settings in documents
-/

namespace ItemBudget

open Json (Node)

variable {ν : Type} [Document ν]

/-- Reads a rate limit. -/
def RateLimit.Limit.ofDocument? (n : ν) : Option RateLimit.Limit := do
  let f ← Document.record? "RateLimitConfig" ["requests", "per_secs"] n
  return {
    requests := ← f.required "requests" (Document.natural? 32)
    perSeconds := ← f.required "per_secs" (Document.natural? 32) }

/-- The node of a rate limit. -/
def RateLimit.Limit.toJson (l : RateLimit.Limit) : Node :=
  .ofFields [("requests", .ofNat l.requests), ("per_secs", .ofNat l.perSeconds)]

/-- Reads the settings of a workshop. -/
def Workshop.Settings.ofDocument? (n : ν) : Option Workshop.Settings := do
  let f ← Document.record? "WorkshopConfig" ["rate_limit", "max_history"] n
  return {
    rateLimit := ← f.orElse "rate_limit" none
      (Document.optionalOf? RateLimit.Limit.ofDocument?)
    maxHistory := ← f.orElse "max_history" none (Document.optionalOf? (Document.natural? 64)) }

/-- The node of the settings of a workshop. -/
def Workshop.Settings.toJson (s : Workshop.Settings) : Node :=
  .ofFields [("rate_limit", .ofOption RateLimit.Limit.toJson s.rateLimit),
    ("max_history", .ofOption Node.ofNat s.maxHistory)]

end ItemBudget
