import ItemBudget.Json.Number
import ItemBudget.Table

/-!
# JSON values

A value is what a JSON text means when no type is expected: its numerals are numbers, and an object
has every key once, of a repeated key the first place and the last value. Values that lie in too
many arrays and objects, and texts that hold a string or numeral without meaning, have none.
-/

namespace ItemBudget.Json

/-- A JSON value. -/
inductive Value where
  | null
  | flag (value : Bool)
  | number (value : Number)
  | text (value : String)
  | array (elements : List Value)
  | object (members : List (String × Value))

/-- The most arrays and objects that lie in each other. -/
def maxLevels : Nat := 127

mutual

/-- The value of a node with at most `levels` arrays and objects in each other. -/
def Node.valueWithin? (levels : Nat) : Node → Option Value
  | .null => some .null
  | .flag b => some (.flag b)
  | .number n => (number? n).map .number
  | .text l => l.map .text
  | .array es =>
    match levels with
    | 0 => none
    | levels + 1 => (elementsWithin? levels es).map .array
  | .object ms =>
    match levels with
    | 0 => none
    | levels + 1 => (membersWithin? levels ms).map fun es => .object (Table.ofList es).entries

/-- The values of elements. -/
def elementsWithin? (levels : Nat) : List Node → Option (List Value)
  | [] => some []
  | e :: es => do
    let e ← e.valueWithin? levels
    return e :: (← elementsWithin? levels es)

/-- The texts of keys and the values of members. -/
def membersWithin? (levels : Nat) : List (Literal × Node) → Option (List (String × Value))
  | [] => some []
  | (k, v) :: ms => do
    let k ← k
    let v ← v.valueWithin? levels
    return (k, v) :: (← membersWithin? levels ms)

end

/-- The value of a node. -/
def Node.value? (n : Node) : Option Value := n.valueWithin? maxLevels

mutual

/-- The node that writes a value. -/
def Value.node : Value → Node
  | .null => .null
  | .flag b => .flag b
  | .number n => n.node
  | .text s => .ofString s
  | .array es => .array (elementNodes es)
  | .object ms => .object (memberNodes ms)

/-- The nodes that write elements. -/
def elementNodes : List Value → List Node
  | [] => []
  | e :: es => e.node :: elementNodes es

/-- The nodes that write members. -/
def memberNodes : List (String × Value) → List (Literal × Node)
  | [] => []
  | (k, v) :: ms => (some k, v.node) :: memberNodes ms

end

end ItemBudget.Json
