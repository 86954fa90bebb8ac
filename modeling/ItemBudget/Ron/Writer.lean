import ItemBudget.Decimal.Layout
import ItemBudget.Decimal.Numeral
import ItemBudget.Ron.Node
import ItemBudget.Text.Class

/-!
# Writing RON texts

`pretty` puts every element, entry and named field on a line of its own, four spaces deeper than its
container and with a comma after it; an empty container and values in parentheses stay on one line.
In strings, quotes of both kinds, backslashes and characters that are not shown as they are become
escapes. All this transcribes the writer of the RON package that the workspace builds with, and so
does `floatStyle`.
-/

namespace ItemBudget.Ron

/-- How RON texts write doubles: ties go to the larger number, and no exponent has a plus sign. -/
def floatStyle : Decimal.Style := ⟨.up, -4, false⟩

namespace Node

/-- The node of a string. -/
def ofString (s : String) : Node := text s

/-- The node of a natural number. -/
def ofNat (n : Nat) : Node := number (Decimal.digitsOf n)

/-- The node of a double: a numeral that never is a whole number, or a word. -/
def ofFloat (x : Float) : Node :=
  match Decimal.Numeral.ofFloat? floatStyle x with
  | some n => number (n.render floatStyle.plus)
  | none => number (Decimal.plain x).toList

/-- The node of an alternative by its name. -/
def ofWord (name : String) : Node := word false name

/-- The node of a value that may be missing. -/
def ofOption {α : Type} (f : α → Node) : Option α → Node
  | none => ofWord "None"
  | some a => present false (f a)

/-- The node of named fields. -/
def ofFields (fields : List (String × Node)) : Node := record none fields

end Node

/-- A character inside a string or character literal. -/
def escape (c : Char) : List Char :=
  if c = '\x00' then ['\\', '0']
  else if c = '\t' then ['\\', 't']
  else if c = '\r' then ['\\', 'r']
  else if c = '\n' then ['\\', 'n']
  else if c = '"' || c = '\'' || c = '\\' then ['\\', c]
  else if Text.isShown c then [c]
  else '\\' :: 'u' :: '\x7b' :: (Nat.toDigits 16 c.toNat ++ ['\x7d'])

/-- A string literal. -/
def quoted (s : String) : List Char := '"' :: (s.toList.flatMap escape ++ ['"'])

/-- A line's end and the blanks before the next one's content. -/
def newLine (depth : Nat) : List Char := '\n' :: List.replicate (4 * depth) ' '

/-- The parts of a container at `depth`, each on a line of its own. -/
def renderBlock (depth : Nat) (parts : List (List Char)) : List Char :=
  if parts.isEmpty then []
  else parts.flatMap (fun p => newLine (depth + 1) ++ p ++ [',']) ++ newLine depth

/-- The name before a group. -/
def renderName (name : Option String) : List Char := name.elim [] String.toList

mutual

/-- The characters of a node over several lines, itself `depth` levels deep. Bytes and ranges are
written as empty ones. -/
def renderLines (depth : Nat) : Node → List Char
  | .word raw name => (if raw then ['r', '#'] else []) ++ name.toList
  | .number run => run
  | .range => ['.', '.']
  | .bytes => ['b', '"', '"']
  | .text s => quoted s
  | .char c => '\'' :: (escape c ++ ['\''])
  | .list es => '[' :: (renderBlock depth (renderElements (depth + 1) es) ++ [']'])
  | .map es => '\x7b' :: (renderBlock depth (renderEntries (depth + 1) es) ++ ['\x7d'])
  | .present bare n =>
    "Some".toList ++ (if bare then ' ' :: renderLines depth n else '(' :: (renderLines depth n ++ [')']))
  | .fields fs => renderBlock depth (renderFields (depth + 1) fs)
  | .values es => [',', ' '].intercalate (renderElements depth es)
  | .record name fs =>
    renderName name ++ '(' :: (renderBlock depth (renderFields (depth + 1) fs) ++ [')'])
  | .tuple name es =>
    renderName name ++ '(' :: ([',', ' '].intercalate (renderElements depth es) ++ [')'])

/-- The elements of a list or of a group. -/
def renderElements (depth : Nat) : List Node → List (List Char)
  | [] => []
  | e :: es => renderLines depth e :: renderElements depth es

/-- The entries of a map. -/
def renderEntries (depth : Nat) : List (Node × Node) → List (List Char)
  | [] => []
  | (k, v) :: es =>
    (renderLines depth k ++ ':' :: ' ' :: renderLines depth v) :: renderEntries depth es

/-- The named fields of a group. -/
def renderFields (depth : Nat) : List (String × Node) → List (List Char)
  | [] => []
  | (k, v) :: fs => (k.toList ++ ':' :: ' ' :: renderLines depth v) :: renderFields depth fs

end

/-- The text of a node over several lines. -/
def pretty (n : Node) : String := String.ofList (renderLines 0 n)

end ItemBudget.Ron
