import ItemBudget.Budget.Basic
import ItemBudget.Journal.History
import ItemBudget.Workshop.Error

/-!
# Stores

A store holds items under numbers, the configuration that their budgets follow, and the history of
their changes. Numbers are given from 1 on and never again, and the items stand in their order.
Every change of an item computes its costs under the configuration in force and records them in the
same step. A change of an item that is not stored is an error and has no next store.
-/

namespace ItemBudget.Workshop

/-- An item under its number. -/
structure Stored where
  id : ItemId
  item : Item
deriving DecidableEq, Repr

/-- Items, their configuration and their history. -/
structure Store where
  /-- The stored items, in order of creation. -/
  items : List Stored
  config : BudgetConfig
  history : Journal.History
  /-- The number of the next item. A number here has no bound; it stands for a counter of 64 bits,
  and is what that counter shows as long as fewer than `2 ^ 64 - 1` items were created. -/
  nextId : ItemId
deriving DecidableEq

namespace Store

/-- The store without items that keeps so many records. -/
def empty (config : BudgetConfig) (maxHistory : Option Nat) : Store :=
  ⟨[], config, .empty maxHistory, 1⟩

/-- The item under a number. -/
def item? (s : Store) (id : ItemId) : Option Item :=
  (s.items.find? (·.id = id)).map (·.item)

/-- The numbers of the stored items, in order of creation. -/
def ids (s : Store) : List ItemId := s.items.map (·.id)

/-- The budget that an item has in this store. -/
def budgetOf (s : Store) (item : Item) : Breakdown := budget item s.config

/-- The cost that an item has in this store. -/
def cost (s : Store) (item : Item) : Float := (s.budgetOf item).used

/-- Stores a new item under the next number. -/
def create (s : Store) (actor : String) (item : Item) (time : Time.Instant) :
    (ItemId × Breakdown) × Store :=
  ((s.nextId, s.budgetOf item),
    { s with
      items := s.items ++ [⟨s.nextId, item⟩]
      history := s.history.record ⟨s.nextId, .created, actor, none, some (s.cost item)⟩ time
      nextId := s.nextId + 1 })

/-- Puts an item in the place of a stored one. -/
def update (s : Store) (actor : String) (id : ItemId) (item : Item) (time : Time.Instant) :
    Except Error (Breakdown × Store) :=
  match s.item? id with
  | none => .error (.itemNotFound id)
  | some old =>
    .ok (s.budgetOf item,
      { s with
        items := s.items.map fun x => if x.id = id then ⟨id, item⟩ else x
        history := s.history.record
          ⟨id, .updated, actor, some (s.cost old), some (s.cost item)⟩ time })

/-- Takes an item out of the store. -/
def delete (s : Store) (actor : String) (id : ItemId) (time : Time.Instant) :
    Except Error (Item × Store) :=
  match s.item? id with
  | none => .error (.itemNotFound id)
  | some old =>
    .ok (old,
      { s with
        items := s.items.filter (·.id ≠ id)
        history := s.history.record ⟨id, .deleted, actor, some (s.cost old), none⟩ time })

/-- The budget of a stored item. -/
def budget (s : Store) (id : ItemId) : Except Error Breakdown :=
  match s.item? id with
  | none => .error (.itemNotFound id)
  | some item => .ok (s.budgetOf item)

end Store

end ItemBudget.Workshop
