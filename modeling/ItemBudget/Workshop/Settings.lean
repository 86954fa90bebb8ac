import ItemBudget.RateLimit.Limit

/-!
# Settings of a workshop
-/

namespace ItemBudget.Workshop

/-- The limits of a workshop; without one, nothing is limited. -/
structure Settings where
  /-- How often one actor may change something. -/
  rateLimit : Option RateLimit.Limit
  /-- How many records are kept. -/
  maxHistory : Option Nat
deriving DecidableEq, Repr

end ItemBudget.Workshop
