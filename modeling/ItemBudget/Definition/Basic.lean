import ItemBudget.Budget.Config
import ItemBudget.Decimal.Layout
import ItemBudget.Definition.Attribute
import ItemBudget.Definition.Formula

/-!
# Definitions

All that is defined for a game: named formulas, attributes, weights, allowances, and the formula in
force. Definitions only grow: nothing is defined twice, and an addition that is refused says why.
Tables enter whole or not at all; of a list of formulas or attributes, those before a refused one
stay.
-/

namespace ItemBudget

/-- Everything that is defined. -/
structure Definitions where
  formulas : FormulaBook
  attributes : AttributeBook
  weights : WeightTable
  allowances : AllowanceTable
  /-- The formula in force, by its name or its text. -/
  activeFormula : Option String
deriving DecidableEq

namespace Definitions

/-- Nothing is defined. -/
def empty : Definitions := ⟨∅, ∅, ∅, ∅, none⟩

instance : EmptyCollection Definitions := ⟨empty⟩

/-- The budget configuration that the definitions give. A formula in force that the book does not
know stays as it is. -/
def budgetConfig (d : Definitions) : BudgetConfig :=
  let value := d.activeFormula.getD Formula.defaultText
  { formula := (FormulaBook.resolve d.formulas value).toOption.getD value
    weights := d.weights
    allowances := d.allowances }

end Definitions

/-- The definitions after an addition, and why it was refused if it was. -/
structure Loaded where
  definitions : Definitions
  error : Option DefinitionError

namespace Definitions

/-- The addition that was made. -/
def accept (d : Definitions) : Loaded := ⟨d, none⟩

/-- The addition that was refused. -/
def refuse (d : Definitions) (e : DefinitionError) : Loaded := ⟨d, some e⟩

/-- Adds one formula. -/
def addFormula (d : Definitions) (f : NamedFormula) : Loaded :=
  match FormulaBook.add d.formulas f with
  | .ok b => accept { d with formulas := b }
  | .error e => d.refuse e

/-- Adds one attribute. -/
def addAttribute (d : Definitions) (a : AttributeDefinition) : Loaded :=
  match AttributeBook.add d.attributes a with
  | .ok b => accept { d with attributes := b }
  | .error e => d.refuse e

/-- Adds one thing after the other up to the first that is refused. -/
def addEach {α : Type} (add : Definitions → α → Loaded) (d : Definitions) : List α → Loaded
  | [] => d.accept
  | x :: xs =>
    match add d x with
    | ⟨d', none⟩ => addEach add d' xs
    | refused => refused

/-- Adds formulas in order. -/
def addFormulas (d : Definitions) (fs : List NamedFormula) : Loaded := addEach addFormula d fs

/-- Adds attributes in order. -/
def addAttributes (d : Definitions) (as : List AttributeDefinition) : Loaded :=
  addEach addAttribute d as

/-- Why a weight cannot be added. -/
def weightError? (d : Definitions) (name : String) (x : Float) : Option DefinitionError :=
  if d.weights.contains name then some (.duplicate ("weight " ++ name))
  else if x.isFinite && 0.0 ≤ x then none
  else some (.invalidSchema
    ("weight " ++ name ++ " must be a non-negative number, got " ++ Decimal.plain x))

/-- Adds a table of weights. -/
def addWeights (d : Definitions) (t : WeightTable) : Loaded :=
  match t.entries.findSome? fun e => d.weightError? e.1 e.2 with
  | some e => d.refuse e
  | none =>
    accept { d with weights := t.entries.foldl (fun w e => w.insert e.1 e.2) d.weights }

/-- Why an allowance cannot be added. -/
def allowanceError? (d : Definitions) (rarity className : String) (x : Float) :
    Option DefinitionError :=
  if (AllowanceTable.get? d.allowances rarity className).isSome then
    some (.duplicate ("allowance " ++ rarity ++ "/" ++ className))
  else if x.isFinite then none
  else some (.invalidSchema ("allowance " ++ rarity ++ "/" ++ className ++ " must be a number"))

/-- Adds a table of allowances. -/
def addAllowances (d : Definitions) (t : AllowanceTable) : Loaded :=
  match (AllowanceTable.flatten t).findSome? fun e => d.allowanceError? e.1 e.2.1 e.2.2 with
  | some e => d.refuse e
  | none =>
    let set := fun a (e : String × String × Float) => AllowanceTable.set a e.1 e.2.1 e.2.2
    accept { d with allowances := (AllowanceTable.flatten t).foldl set d.allowances }

/-- Puts a formula in force; only one ever is. -/
def activate (d : Definitions) (formula : String) : Loaded :=
  match d.activeFormula with
  | some _ => d.refuse (.duplicate "active_formula")
  | none => accept { d with activeFormula := some formula }

end Definitions

end ItemBudget
