import ItemBudget.Document.View
import ItemBudget.Item.Basic
import ItemBudget.Json.Node

/-!
# Items in documents

The fields of items and their parts, as documents name them. A field with a natural value for when
it is absent can be left out; `toJson` writes all of them.
-/

namespace ItemBudget

open Json (Node)

variable {ν : Type} [Document ν]

/-- The names of the kinds of bounds. -/
def BoundKind.names : List (String × BoundKind) :=
  [("Double", .double), ("Int", .int), ("String", .string)]

/-- Reads a kind of bound. -/
def BoundKind.ofDocument? (n : ν) : Option BoundKind := Document.oneOf? names n

/-- The node of a kind of bound. -/
def BoundKind.toJson (k : BoundKind) : Node := .ofString k.name

/-- The names of the categories. -/
def Category.names : List (String × Category) := [("Custom", .custom), ("Vanilla", .vanilla)]

/-- Reads a category. -/
def Category.ofDocument? (n : ν) : Option Category := Document.oneOf? names n

/-- The node of a category. -/
def Category.toJson (c : Category) : Node := .ofString c.name

/-- The names of the equipment classes. -/
def EquipClass.names : List (String × EquipClass) := all.map fun c => (c.name, c)

/-- Reads an equipment class. -/
def EquipClass.ofDocument? (n : ν) : Option EquipClass := Document.oneOf? names n

/-- The node of an equipment class. -/
def EquipClass.toJson (c : EquipClass) : Node := .ofString c.name

/-- Reads a bound. -/
def Bound.ofDocument? (n : ν) : Option Bound := do
  let f ← Document.record? "AttributeBound" ["type", "min", "max"] n
  return {
    kind := ← f.orElse "type" .double BoundKind.ofDocument?
    min := ← f.orElse "min" "" Document.text?
    max := ← f.orElse "max" "" Document.text? }

/-- The node of a bound. -/
def Bound.toJson (b : Bound) : Node :=
  .ofFields [("type", b.kind.toJson), ("min", .ofString b.min), ("max", .ofString b.max)]

/-- Reads an attribute. -/
def Attribute.ofDocument? (n : ν) : Option Attribute := do
  let f ← Document.record? "ItemAttribute" ["category", "name", "bounds", "bypassBP"] n
  return {
    category := ← f.orElse "category" .custom Category.ofDocument?
    name := ← f.required "name" Document.text?
    bounds := ← f.orElse "bounds" [] (Document.listOf? Bound.ofDocument?)
    bypassed := ← f.orElse "bypassBP" false Document.flag? }

/-- The node of an attribute. -/
def Attribute.toJson (a : Attribute) : Node :=
  .ofFields [("category", a.category.toJson), ("name", .ofString a.name),
    ("bounds", .array (a.bounds.map Bound.toJson)), ("bypassBP", .flag a.bypassed)]

/-- Reads an item. -/
def Item.ofDocument? (n : ν) : Option Item := do
  let f ← Document.record? "Item" ["name", "rarity", "equipment", "attributes"] n
  return {
    name := ← f.orElse "name" "" Document.text?
    rarity := ← f.required "rarity" Document.text?
    equipment := ← f.required "equipment" Document.text?
    attributes := ← f.orElse "attributes" [] (Document.listOf? Attribute.ofDocument?) }

/-- The node of an item. -/
def Item.toJson (i : Item) : Node :=
  .ofFields [("name", .ofString i.name), ("rarity", .ofString i.rarity),
    ("equipment", .ofString i.equipment),
    ("attributes", .array (i.attributes.map Attribute.toJson))]

/-- Reads the number of an item. -/
def itemIdOfDocument? (n : ν) : Option ItemId := Document.natural? 64 n

end ItemBudget
