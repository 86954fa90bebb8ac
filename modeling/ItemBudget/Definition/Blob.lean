import ItemBudget.Budget.Config
import ItemBudget.Decimal.Reader
import ItemBudget.Definition.Attribute
import ItemBudget.Document.Definition
import ItemBudget.Json.Document
import ItemBudget.Json.Reader
import ItemBudget.Json.Value
import ItemBudget.Json.Writer
import ItemBudget.Text.Blank

/-!
# Tables stored as JSON

Stored configurations keep their tables as JSON texts of loose form. A blank text and null are the
empty table. A number may be written as a string; an entry that is no finite number is left out, and
so is a negative weight, so that a later look-up finds nothing and counts 0.
-/

namespace ItemBudget.Blob

open Json (Value)

/-- The members of a JSON object, none for a blank text or null; `what` names the table in the
error for a value of another kind. -/
def members (what text : String) : Except DefinitionError (List (String × Value)) :=
  if (Text.trimChars text.toList).isEmpty then .ok []
  else match (Json.read? text).bind Json.Node.value? with
    | none => .error .malformedJson
    | some .null => .ok []
    | some (.object ms) => .ok ms
    | some v => .error (.invalidSchema
        (what ++ " must be a JSON object, got " ++ Json.compact v.node))

/-- The finite number that a value means. -/
def number? (v : Value) : Option Float :=
  let x := match v with
    | .number n => some n.toFloat
    | .text s => Decimal.readFloat? (Text.trimChars s.toList)
    | _ => none
  x.filter (·.isFinite)

/-- The weight that a value means. -/
def weight? (v : Value) : Option Float := (number? v).filter (0.0 ≤ ·)

/-- The entries whose values mean something. -/
def meaningful (read : Value → Option Float) (ms : List (String × Value)) :
    List (String × Float) :=
  ms.filterMap fun m => (read m.2).map (Prod.mk m.1)

/-- The weights of a JSON text. -/
def weights (text : String) : Except DefinitionError WeightTable :=
  (members "weights" text).map fun ms => Table.ofList (meaningful weight? ms)

/-- The allowances of one rarity. -/
def allowanceRow : Value → List (String × Float)
  | .object ms => meaningful number? ms
  | _ => []

/-- The allowances of a JSON text. A rarity without an entry is left out. -/
def allowances (text : String) : Except DefinitionError AllowanceTable :=
  (members "allowances" text).map fun ms =>
    ms.foldl (fun t m => (allowanceRow m.2).foldl
      (fun t e => AllowanceTable.set t m.1 e.1 e.2) t) ∅

/-- The attribute definitions of a JSON text, which is a list of them or null. -/
def attributes (text : String) : Except DefinitionError AttributeBook :=
  if (Text.trimChars text.toList).isEmpty then .ok ∅
  else match (Json.read? text).bind
      (Document.optionalOf? (Document.listOf? AttributeDefinition.ofDocument?)) with
    | none => .error .malformedJson
    | some ds => (ds.getD []).foldlM AttributeBook.add ∅

/-- The configuration of a formula and the JSON texts of weights and allowances. -/
def config (formula weightText allowanceText : String) : Except DefinitionError BudgetConfig := do
  let w ← weights weightText
  let a ← allowances allowanceText
  return ⟨formula, w, a⟩

end ItemBudget.Blob
