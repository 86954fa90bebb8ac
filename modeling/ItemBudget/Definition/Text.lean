import ItemBudget.Definition.Basic
import ItemBudget.Document.Budget
import ItemBudget.Document.Definition
import ItemBudget.Ron.Document
import ItemBudget.Ron.Reader
import ItemBudget.Text.Search

/-!
# Definition texts

A definition text is a RON record with one list or table, or one single definition. A text of a
known kind is read by `load`; the kind of a file is guessed from its text and name by `kindOf`.
-/

namespace ItemBudget

/-- What a definition text defines. -/
inductive DefinitionKind where
  | formulas | attributes | weights | allowances | activeFormula
  /-- One formula or one attribute. -/
  | single
deriving DecidableEq, Repr

namespace Definitions

/-- The value of a whole text under a reader. -/
def document? {α : Type} (read : Ron.Part → Option α) (text : String) : Option α :=
  (Ron.read? text).bind read

/-- A record with one field. -/
def only? {α : Type} (record key : String) (read : Ron.Part → Option α) (p : Ron.Part) :
    Option α := do
  (← Document.record? record [key] p).required key read

/-- Reads the formulas of a definition text. -/
def formulasOfText? : String → Option (List NamedFormula) :=
  document? (only? "FormulaFile" "formulas" (Document.listOf? NamedFormula.ofDocument?))

/-- Reads the attributes of a definition text. -/
def attributesOfText? : String → Option (List AttributeDefinition) :=
  document? (only? "AttributeFile" "attributes" (Document.listOf? AttributeDefinition.ofDocument?))

/-- Reads the weights of a definition text. -/
def weightsOfText? : String → Option WeightTable :=
  document? (only? "WeightFile" "weights" WeightTable.ofDocument?)

/-- Reads the allowances of a definition text. -/
def allowancesOfText? : String → Option AllowanceTable :=
  document? (only? "AllowanceFile" "allowances" AllowanceTable.ofDocument?)

/-- Reads the formula in force of a definition text. -/
def activeFormulaOfText? : String → Option String :=
  document? (only? "BudgetFile" "active_formula" Document.text?)

/-- Adds what was read from a text, or refuses a text that was not. -/
def addRead {α : Type} (add : Definitions → α → Loaded) (d : Definitions) : Option α → Loaded
  | some x => add d x
  | none => d.refuse .malformedRon

/-- Adds a single definition: a formula when the text is one, else an attribute. -/
def loadSingle (d : Definitions) (text : String) : Loaded :=
  match document? NamedFormula.ofDocument? text with
  | some f => d.addFormula f
  | none =>
    match document? AttributeDefinition.ofDocument? text with
    | some a => d.addAttribute a
    | none => d.refuse (.invalidSchema "Could not parse as any known definition type")

/-- Adds the definitions of a text of a known kind. -/
def load (d : Definitions) (kind : DefinitionKind) (text : String) : Loaded :=
  match kind with
  | .formulas => addRead addFormulas d (formulasOfText? text)
  | .attributes => addRead addAttributes d (attributesOfText? text)
  | .weights => addRead addWeights d (weightsOfText? text)
  | .allowances => addRead addAllowances d (allowancesOfText? text)
  | .activeFormula => addRead activate d (activeFormulaOfText? text)
  | .single => d.loadSingle text

/-- The kind of a definition file: what its text or its name mentions first in this order. -/
def kindOf (fileName text : String) : DefinitionKind :=
  if Text.mentions text "active_formula:" then .activeFormula
  else if Text.mentions fileName "formula" || Text.mentions text "formulas:" then .formulas
  else if Text.mentions fileName "attribute" || Text.mentions text "attributes:" then .attributes
  else if Text.mentions fileName "weight" || Text.mentions text "weights:" then .weights
  else if Text.mentions fileName "allowance" || Text.mentions text "allowances:" then .allowances
  else .single

end Definitions

end ItemBudget
