import ItemBudget.Json.Node

/-!
# Writing JSON texts

`compact` writes a node without blanks. `pretty` puts every element and member on a line of its
own, two spaces deeper than its container; an empty container stays on one line. A positive
exponent has a sign. Only quotes, backslashes and control characters are escaped. The layout and the
choice of escapes transcribe the writer of the JSON package that the workspace builds with.
-/

namespace ItemBudget.Json

/-- A hexadecimal digit. -/
def hexDigit (n : Nat) : Char := Nat.digitChar (n % 16)

/-- A character inside a string literal. -/
def escape (c : Char) : List Char :=
  if c = '"' then ['\\', '"']
  else if c = '\\' then ['\\', '\\']
  else if c = '\x08' then ['\\', 'b']
  else if c = '\x0c' then ['\\', 'f']
  else if c = '\n' then ['\\', 'n']
  else if c = '\r' then ['\\', 'r']
  else if c = '\t' then ['\\', 't']
  else if c.toNat < 0x20 then ['\\', 'u', '0', '0', hexDigit (c.toNat / 16), hexDigit c.toNat]
  else [c]

/-- A string literal. -/
def quoted (cs : List Char) : List Char := '"' :: (cs.flatMap escape ++ ['"'])

/-- A literal that has a text is quoted; one that has none is written as an empty string. -/
def renderLiteral (l : Literal) : List Char := quoted (l.elim [] String.toList)

/-- The lists with a separator between them. -/
def joined (sep : List Char) : List (List Char) → List Char
  | [] => []
  | [x] => x
  | x :: y :: r => x ++ sep ++ joined sep (y :: r)

mutual

/-- The characters of a node without blanks. -/
def render : Node → List Char
  | .null => ['n', 'u', 'l', 'l']
  | .flag b => if b then ['t', 'r', 'u', 'e'] else ['f', 'a', 'l', 's', 'e']
  | .number n => n.render floatStyle.plus
  | .text l => renderLiteral l
  | .array es => '[' :: (joined [','] (renderElements es) ++ [']'])
  | .object ms => '{' :: (joined [','] (renderMembers ms) ++ ['}'])

/-- The elements of an array. -/
def renderElements : List Node → List (List Char)
  | [] => []
  | e :: es => render e :: renderElements es

/-- The members of an object. -/
def renderMembers : List (Literal × Node) → List (List Char)
  | [] => []
  | (k, v) :: ms => (renderLiteral k ++ ':' :: render v) :: renderMembers ms

end

/-- The text of a node without blanks. -/
def compact (n : Node) : String := String.ofList (render n)

/-- A line's end and the blanks before the next one's content. -/
def newLine (depth : Nat) : List Char := '\n' :: List.replicate (2 * depth) ' '

mutual

/-- The characters of a node over several lines, itself `depth` levels deep. -/
def renderLines (depth : Nat) : Node → List Char
  | .array [] => ['[', ']']
  | .array (e :: es) =>
    '[' :: (newLine (depth + 1) ++ joined (',' :: newLine (depth + 1))
      (renderElementLines (depth + 1) (e :: es)) ++ newLine depth ++ [']'])
  | .object [] => ['{', '}']
  | .object (m :: ms) =>
    '{' :: (newLine (depth + 1) ++ joined (',' :: newLine (depth + 1))
      (renderMemberLines (depth + 1) (m :: ms)) ++ newLine depth ++ ['}'])
  | n => render n

/-- The elements of an array over several lines. -/
def renderElementLines (depth : Nat) : List Node → List (List Char)
  | [] => []
  | e :: es => renderLines depth e :: renderElementLines depth es

/-- The members of an object over several lines. -/
def renderMemberLines (depth : Nat) : List (Literal × Node) → List (List Char)
  | [] => []
  | (k, v) :: ms =>
    (renderLiteral k ++ ':' :: ' ' :: renderLines depth v) :: renderMemberLines depth ms

end

/-- The text of a node over several lines. -/
def pretty (n : Node) : String := String.ofList (renderLines 0 n)

end ItemBudget.Json
