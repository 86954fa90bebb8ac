import ItemBudget.Item.EquipClass

/-!
# Items

An item has a rarity, a piece of equipment and attributes in order. An attribute has bounds, each a
range written as text or one text; it may be exempt from the budget.
-/

namespace ItemBudget

/-- What a bound's text is. -/
inductive BoundKind where
  | double | int | string
deriving DecidableEq, Repr

/-- The name of a kind of bound. -/
def BoundKind.name : BoundKind → String
  | .double => "Double"
  | .int => "Int"
  | .string => "String"

/-- A bound that is a range of numbers. -/
def BoundKind.isNumeric (k : BoundKind) : Bool := k ≠ .string

/-- Where an attribute comes from. -/
inductive Category where
  | custom | vanilla
deriving DecidableEq, Repr

/-- The name of a category. -/
def Category.name : Category → String
  | .custom => "Custom"
  | .vanilla => "Vanilla"

/-- A bound of an attribute: its two ends, as written. -/
structure Bound where
  kind : BoundKind
  min : String
  max : String
deriving DecidableEq, Repr

/-- The bound that is one text. -/
def Bound.ofText (text : String) : Bound := ⟨.string, text, text⟩

/-- An attribute of an item. -/
structure Attribute where
  category : Category
  name : String
  bounds : List Bound
  /-- The attribute does not count against the budget. -/
  bypassed : Bool
deriving DecidableEq, Repr

/-- An item. -/
structure Item where
  name : String
  rarity : String
  equipment : String
  attributes : List Attribute
deriving DecidableEq, Repr

/-- The item's equipment class. -/
def Item.equipClass (i : Item) : EquipClass := EquipClass.ofEquipment i.equipment

/-- The attributes that count against the budget. -/
def Item.charged (i : Item) : List Attribute := i.attributes.filter (!·.bypassed)

/-- The number of an item in a store, below 2^64. -/
abbrev ItemId := Nat

/-- The text of an item's number. -/
def itemIdText (id : ItemId) : String := "item:" ++ toString id

end ItemBudget
