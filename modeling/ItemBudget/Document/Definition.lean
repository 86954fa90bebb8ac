import ItemBudget.Definition.Attribute
import ItemBudget.Definition.Formula
import ItemBudget.Document.Item

/-!
# Definitions in documents
-/

namespace ItemBudget

open Json (Node)

variable {ν : Type} [Document ν]

/-- Reads a named formula. -/
def NamedFormula.ofDocument? (n : ν) : Option NamedFormula := do
  let f ← Document.record? "FormulaDef" ["name", "expression", "description"] n
  return {
    name := ← f.required "name" Document.text?
    expression := ← f.required "expression" Document.text?
    description := ← f.orElse "description" "" Document.text? }

/-- The node of a named formula. -/
def NamedFormula.toJson (f : NamedFormula) : Node :=
  .ofFields [("name", .ofString f.name), ("expression", .ofString f.expression),
    ("description", .ofString f.description)]

/-- Reads the definition of an attribute. -/
def AttributeDefinition.ofDocument? (n : ν) : Option AttributeDefinition := do
  let f ← Document.record? "AttributeDef"
    ["name", "category", "display_name", "description", "bound_types"] n
  return {
    name := ← f.required "name" Document.text?
    category := ← f.orElse "category" .custom Category.ofDocument?
    displayName := ← f.orElse "display_name" "" Document.text?
    description := ← f.orElse "description" "" Document.text?
    boundKinds := ← f.orElse "bound_types" [] (Document.listOf? BoundKind.ofDocument?) }

/-- The node of the definition of an attribute. -/
def AttributeDefinition.toJson (d : AttributeDefinition) : Node :=
  .ofFields [("name", .ofString d.name), ("category", d.category.toJson),
    ("display_name", .ofString d.displayName), ("description", .ofString d.description),
    ("bound_types", .array (d.boundKinds.map BoundKind.toJson))]

end ItemBudget
