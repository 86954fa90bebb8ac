import ItemBudget.Document.View
import ItemBudget.Json.Number

/-!
# JSON nodes as documents

A record is an object, or an array of its fields in order. Null is a value that is missing. An
alternative is the string of its name, or an object with that one name and null.
-/

namespace ItemBudget.Json

/-- The texts of the keys, when all have one. -/
def keyed? (ms : List (Literal × Node)) : Option (List (String × Node)) :=
  ms.mapM fun m => m.1.map (·, m.2)

instance : Document Node where
  text?
    | .text l => l
    | _ => none
  number?
    | .number n => (number? n).map Number.toFloat
    | _ => none
  flag?
    | .flag b => some b
    | _ => none
  natural? bits
    | .number n =>
      match number? n with
      | some (.natural n) => if n < Nat.pow 2 bits then some n else none
      | _ => none
    | _ => none
  optional?
    | .null => some none
    | n => some (some n)
  list?
    | .array es => some es
    | _ => none
  table?
    | .object ms => keyed? ms
    | _ => none
  choice?
    | .text l => l
    | .object [(l, .null)] => l
    | _ => none
  record? _ known
    | .object ms => (keyed? ms).bind (Fields.ofNamed? known)
    | .array es => Fields.ofOrdered? known es
    | _ => none

end ItemBudget.Json
