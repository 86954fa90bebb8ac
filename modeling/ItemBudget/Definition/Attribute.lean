import ItemBudget.Definition.Error
import ItemBudget.Item.Basic
import ItemBudget.Table

/-!
# Attribute definitions

An attribute book says which attributes items may carry, from which category, and with which kinds
of bounds. `issues` checks an item against it; what it finds changes no budget.
-/

namespace ItemBudget

/-- The definition of an attribute. -/
structure AttributeDefinition where
  name : String
  category : Category
  displayName : String
  description : String
  /-- The kinds of bounds that the attribute may have; with none given, all. -/
  boundKinds : List BoundKind
deriving DecidableEq, Repr

namespace AttributeDefinition

/-- The definition that says only a name. -/
def ofName (name : String) : AttributeDefinition := ⟨name, .custom, "", "", []⟩

/-- The attribute may have a bound of this kind. -/
def permits (d : AttributeDefinition) (k : BoundKind) : Bool :=
  d.boundKinds.isEmpty || d.boundKinds.contains k

end AttributeDefinition

/-- Something about an item that its attribute definitions do not allow. -/
inductive Issue where
  | unknownAttribute (name : String)
  | boundNotAllowed (name : String) (kind : BoundKind)
  | categoryMismatch (name : String) (expected found : Category)
deriving DecidableEq, Repr

/-- The text shown for an issue. -/
def Issue.message : Issue → String
  | .unknownAttribute a => a ++ ": no such attribute"
  | .boundNotAllowed a k => a ++ ": " ++ k.name ++ " bounds are not allowed"
  | .categoryMismatch a e f => a ++ ": expected " ++ e.name ++ ", found " ++ f.name

/-- The attribute definitions by name. -/
abbrev AttributeBook := Table AttributeDefinition

namespace AttributeBook

/-- The book with one more definition. -/
def add (b : AttributeBook) (d : AttributeDefinition) : Except DefinitionError AttributeBook :=
  if Table.contains b d.name then .error (.duplicate ("attribute " ++ d.name))
  else .ok (Table.insert b d.name d)

/-- What a definition finds wrong with an attribute: first its category, then its bounds in
order. -/
def attributeIssues (d : AttributeDefinition) (a : Attribute) : List Issue :=
  (if d.category = a.category then [] else [.categoryMismatch a.name d.category a.category])
    ++ (a.bounds.filter (!d.permits ·.kind)).map fun b => .boundNotAllowed a.name b.kind

/-- What the book finds wrong with an item, attribute by attribute. -/
def issues (b : AttributeBook) (i : Item) : List Issue :=
  i.attributes.flatMap fun a =>
    match Table.get? b a.name with
    | none => [.unknownAttribute a.name]
    | some d => attributeIssues d a

end AttributeBook

end ItemBudget
