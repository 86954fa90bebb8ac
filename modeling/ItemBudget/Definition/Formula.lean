import ItemBudget.Definition.Error
import ItemBudget.Table

/-!
# Named formulas

A formula book holds named formulas. A name enters it once, and only with a valid formula. A
configured value is resolved by the book: a name in it stands for its formula, and any other value
must be a formula itself.
-/

namespace ItemBudget

/-- A formula with a name. -/
structure NamedFormula where
  name : String
  /-- The formula's text. -/
  expression : String
  description : String
deriving DecidableEq, Repr

/-- The named formulas by name. -/
abbrev FormulaBook := Table NamedFormula

namespace FormulaBook

/-- The book with one more formula. -/
def add (b : FormulaBook) (f : NamedFormula) : Except DefinitionError FormulaBook :=
  if Table.contains b f.name then .error (.duplicate ("formula " ++ f.name))
  else match Formula.validate f.expression with
    | .error e => .error (.invalidFormula f.name e)
    | .ok _ => .ok (Table.insert b f.name f)

/-- The formula's text that a configured value stands for. -/
def resolve (b : FormulaBook) (value : String) : Except DefinitionError String :=
  match Table.get? b value with
  | some f => .ok f.expression
  | none => if Formula.hasOperator value then .ok value else .error (.unknownFormula value)

end FormulaBook

end ItemBudget
