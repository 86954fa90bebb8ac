/-!
# Equipment classes

The class of an item decides its allowance. An item's equipment is text such as `Sword.IRON`; its
class is named by what stands before the first point, and an unknown name counts as a sword.
-/

namespace ItemBudget

/-- The sixteen classes of equipment. -/
inductive EquipClass where
  | sword | axe | pickaxe | shovel | hoe | bow | crossbow | trident | mace | shield | helmet
  | chestplate | leggings | boots | elytra | trinket
deriving DecidableEq, Repr

namespace EquipClass

/-- The classes in order. -/
def all : List EquipClass :=
  [sword, axe, pickaxe, shovel, hoe, bow, crossbow, trident, mace, shield, helmet, chestplate,
    leggings, boots, elytra, trinket]

/-- The name of a class. -/
def name : EquipClass → String
  | sword => "Sword"
  | axe => "Axe"
  | pickaxe => "Pickaxe"
  | shovel => "Shovel"
  | hoe => "Hoe"
  | bow => "Bow"
  | crossbow => "Crossbow"
  | trident => "Trident"
  | mace => "Mace"
  | shield => "Shield"
  | helmet => "Helmet"
  | chestplate => "Chestplate"
  | leggings => "Leggings"
  | boots => "Boots"
  | elytra => "Elytra"
  | trinket => "Trinket"

/-- The class of a name. -/
def ofName? (name : String) : Option EquipClass := all.find? (·.name == name)

theorem ofName?_name (c : EquipClass) : ofName? c.name = some c := by cases c <;> decide

/-- The class of an item's equipment. -/
def ofEquipment (equipment : String) : EquipClass :=
  (ofName? (String.ofList (equipment.toList.takeWhile (· ≠ '.')))).getD sword

end EquipClass

end ItemBudget
