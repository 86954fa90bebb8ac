import ItemBudget.Decimal.Numeral

/-!
# JSON texts as trees

A node holds what a JSON text writes, before it is given a meaning: numbers as numerals, and the
members of an object in order with repetitions. A string whose escapes write half of a surrogate
pair has no text; such a string may stand where nobody reads it.

The standard leaves open how a double is written. `floatStyle` transcribes the writer of the
JSON package that the workspace builds with: the digits it takes, from which power of ten on it
writes an exponent, and the sign of that exponent.
-/

namespace ItemBudget.Json

/-- What a string literal writes, if its escapes make up characters. -/
abbrev Literal := Option String

/-- A JSON text, read. -/
inductive Node where
  | null
  | flag (value : Bool)
  | number (numeral : Decimal.Numeral)
  | text (literal : Literal)
  | array (elements : List Node)
  | object (members : List (Literal × Node))

/-- How JSON texts write doubles: an even last digit settles ties, and a positive exponent has a
sign. -/
def floatStyle : Decimal.Style := ⟨.even, -5, true⟩

namespace Node

/-- The node of a string. -/
def ofString (s : String) : Node := text (some s)

/-- The node of a natural number. -/
def ofNat (n : Nat) : Node := number (.ofNat n)

/-- The node of a double; a double that is not finite has no numeral and is null. -/
def ofFloat (x : Float) : Node := (Decimal.Numeral.ofFloat? floatStyle x).elim null number

/-- The node of an object with named members. -/
def ofFields (fields : List (String × Node)) : Node :=
  object (fields.map fun f => (some f.1, f.2))

/-- The node of a value that may be missing. -/
def ofOption {α : Type} (f : α → Node) (x : Option α) : Node := x.elim null f

end Node

end ItemBudget.Json
