import ItemBudget.Definition.Basic
import ItemBudget.RateLimit.Limiter
import ItemBudget.Workshop.Settings
import ItemBudget.Workshop.Store

/-!
# Workshops

A workshop is a store whose changes may be limited per actor, with attribute definitions to check
items against. The definitions advise and refuse nothing. A change first asks the limiter, and a
token is spent even when the change then fails; a configuration whose formula is not valid is
refused before the limiter is asked. A call that fails leaves the store as it was.
-/

namespace ItemBudget

/-- A store, its limiter and its definitions. -/
structure Workshop where
  store : Workshop.Store
  /-- Without a limiter nothing is limited. -/
  limiter : Option RateLimit.Limiter
  definitions : Option AttributeBook
deriving DecidableEq

namespace Workshop

/-- What the clocks show at a call. -/
structure Clock where
  /-- The time of a clock that nobody sets, by which limits are kept. -/
  steady : Time.Nanos
  /-- The time of day, which records carry. -/
  civil : Time.Instant
deriving DecidableEq, Repr

/-- A workshop without items, whose limiter starts from the given buckets. -/
def withBuckets (config : BudgetConfig) (settings : Settings) (buckets : Table RateLimit.Bucket) :
    Workshop where
  store := .empty config settings.maxHistory
  limiter := settings.rateLimit.map (RateLimit.Limiter.mk · buckets)
  definitions := none

/-- A workshop without items. -/
def new (config : BudgetConfig) (settings : Settings) : Workshop := withBuckets config settings ∅

/-- The workshop that checks items against definitions. -/
def withDefinitions (w : Workshop) (book : AttributeBook) : Workshop :=
  { w with definitions := some book }

/-- A workshop without items, after definitions that were loaded. -/
def ofDefinitions (d : Definitions) (settings : Settings) : Workshop :=
  (new d.budgetConfig settings).withDefinitions d.attributes

/-! ## Changes -/

/-- The number of tracked actors above which idle ones are forgotten. -/
def sweepAbove : Nat := 1024

/-- Asks the limiter to let an actor in. -/
def letIn (w : Workshop) (actor : String) (now : Clock) : Except Error Unit × Workshop :=
  match w.limiter with
  | none => (.ok (), w)
  | some l =>
    let (verdict, l) := (l.sweepAbove sweepAbove now.steady).2.check actor now.steady
    (match verdict with
      | .allowed _ _ => .ok ()
      | .limited wait _ => .error (.rateLimited actor wait),
      { w with limiter := some l })

/-- The limiter does not touch the store. -/
theorem store_letIn (w : Workshop) (actor : String) (now : Clock) :
    (w.letIn actor now).2.store = w.store := by
  unfold letIn
  split <;> rfl

/-- Changes the store for an actor, if the actor is let in and the change succeeds. -/
def change {α : Type} (w : Workshop) (actor : String) (now : Clock)
    (f : Store → Except Error (α × Store)) : Except Error α × Workshop :=
  match w.letIn actor now with
  | (.error e, w) => (.error e, w)
  | (.ok _, w) =>
    match f w.store with
    | .error e => (.error e, w)
    | .ok (a, s) => (.ok a, { w with store := s })

/-- A change that fails leaves the store as it was. -/
theorem store_change_of_error {α : Type} {w : Workshop} {actor : String} {now : Clock}
    {f : Store → Except Error (α × Store)} {e : Error}
    (h : (w.change actor now f).1 = .error e) : (w.change actor now f).2.store = w.store := by
  have hs := w.store_letIn actor now
  unfold change at h ⊢
  generalize w.letIn actor now = r at h hs ⊢
  match r with
  | (.error _, _) => exact hs
  | (.ok _, v) =>
    cases hf : f v.store with
    | error _ => simpa [hf] using hs
    | ok _ => simp [hf] at h

/-- Stores a new item; the answer is its number and its budget. -/
def create (w : Workshop) (actor : String) (item : Item) (now : Clock) :
    Except Error (ItemId × Breakdown) × Workshop :=
  w.change actor now fun s => .ok (s.create actor item now.civil)

/-- Puts an item in the place of a stored one; the answer is its budget. -/
def update (w : Workshop) (actor : String) (id : ItemId) (item : Item) (now : Clock) :
    Except Error Breakdown × Workshop :=
  w.change actor now fun s => s.update actor id item now.civil

/-- Takes an item out of the store; the answer is the item. -/
def delete (w : Workshop) (actor : String) (id : ItemId) (now : Clock) :
    Except Error Item × Workshop :=
  w.change actor now fun s => s.delete actor id now.civil

/-- Puts another configuration in force, if its formula is valid. -/
def setConfig (w : Workshop) (actor : String) (config : BudgetConfig) (now : Clock) :
    Except Error Unit × Workshop :=
  match Formula.validate config.expression with
  | .error fault => (.error (.invalidFormula fault), w)
  | .ok _ => w.change actor now fun s => .ok ((), { s with config })

/-! ## Questions -/

/-- The budget that an item would have. -/
def preview (w : Workshop) (item : Item) : Breakdown := w.store.budgetOf item

/-- What the definitions find wrong with an item; without definitions nothing. -/
def issues (w : Workshop) (item : Item) : List Issue :=
  w.definitions.elim [] (AttributeBook.issues · item)

end Workshop

end ItemBudget
