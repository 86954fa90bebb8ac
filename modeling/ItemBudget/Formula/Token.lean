import ItemBudget.Decimal.Layout
import ItemBudget.Decimal.Reader
import ItemBudget.Formula.Fault

/-!
# Tokens of a formula

Spaces and tabs separate tokens and mean nothing else. A number is a maximal run of digits and
points, a name a maximal run of ASCII letters, digits and underscores that does not start with a
digit; a name's letter case means nothing. `tokens` reads a whole text, and the fault it reports is
the first in text order. `Lexeme.shorter` says that every token takes at least one character.
-/

namespace ItemBudget.Formula

/-- The operators that join two operands. -/
inductive BinaryOp where
  | add | sub | mul | div | pow
deriving DecidableEq, Repr

/-- The character of an operator. -/
def BinaryOp.symbol : BinaryOp → Char
  | .add => '+' | .sub => '-' | .mul => '*' | .div => '/' | .pow => '^'

/-- A token. The operator `sub` is also the sign of a negation. -/
inductive Token where
  | number (value : Float)
  | name (text : String)
  | op (op : BinaryOp)
  | opening
  | closing
deriving DecidableEq

/-- The text of a token, as faults show it. -/
def Token.text : Token → String
  | .number x => Decimal.plain x
  | .name n => n
  | .op o => String.singleton o.symbol
  | .opening => "("
  | .closing => ")"

/-- A token and the byte offset at which it starts. -/
structure Placed where
  token : Token
  pos : Nat
deriving DecidableEq

/-- A character that can stand in a number. -/
def isNumeral (c : Char) : Bool := c.isDigit || c = '.'

/-- A character that can start a name. -/
def startsName (c : Char) : Bool := c.isAlpha || c = '_'

/-- A character that can stand in a name. -/
def continuesName (c : Char) : Bool := c.isAlphanum || c = '_'

/-- A character that separates tokens. -/
def isGap (c : Char) : Bool := c = ' ' || c = '\t'

/-- The token of a character that is one by itself. -/
def Token.ofSymbol? : Char → Option Token
  | '+' => some (.op .add)
  | '-' => some (.op .sub)
  | '*' => some (.op .mul)
  | '/' => some (.op .div)
  | '^' => some (.op .pow)
  | '(' => some .opening
  | ')' => some .closing
  | _ => none

/-- The number that a run of digits and points writes, if it holds at most one point. -/
def readLiteral? (run : List Char) : Option Float :=
  if run.count '.' ≤ 1 then Decimal.readFloat? run else none

/-- A token read from the front of a text, and what follows it. -/
structure Lexeme (cs : List Char) where
  token : Token
  rest : List Char
  shorter : rest.length < cs.length

theorem length_dropWhile_lt {p : Char → Bool} {c : Char} {cs : List Char} (h : p c = true) :
    ((c :: cs).dropWhile p).length < (c :: cs).length := by
  simp only [List.dropWhile_cons, h, ite_true, List.length_cons]
  exact Nat.lt_succ_of_le (List.dropWhile_sublist p).length_le

/-- The token at the front of a text that starts with `c`. -/
def lexeme (pos : Nat) (c : Char) (cs : List Char) : Except Fault (Lexeme (c :: cs)) :=
  match Token.ofSymbol? c with
  | some t => .ok ⟨t, cs, Nat.lt_succ_self _⟩
  | none =>
    if h : isNumeral c = true then
      let run := (c :: cs).takeWhile isNumeral
      match readLiteral? run with
      | some x => .ok ⟨.number x, (c :: cs).dropWhile isNumeral, length_dropWhile_lt h⟩
      | none => .error (.invalidNumber (String.ofList run))
    else if h : startsName c = true then
      have hc : continuesName c = true := by
        simp only [startsName, continuesName, Char.isAlphanum, Bool.or_eq_true] at h ⊢
        rcases h with h | h <;> simp [h]
      let run := (c :: cs).takeWhile continuesName
      .ok ⟨.name (String.ofList (run.map Char.toLower)), (c :: cs).dropWhile continuesName,
        length_dropWhile_lt hc⟩
    else .error (.invalidCharacter c pos)

/-- The tokens of a text that starts at byte `pos`, at most `room` of them. -/
def tokensFrom (pos room : Nat) : List Char → Except Fault (List Placed)
  | [] => .ok []
  | c :: cs =>
    if isGap c then tokensFrom (pos + 1) room cs
    else do
      let l ← lexeme pos c cs
      match room with
      | 0 => .error .tooLong
      | room + 1 =>
        let width := cs.length + 1 - l.rest.length
        let ts ← tokensFrom (pos + width) room l.rest
        return ⟨l.token, pos⟩ :: ts
termination_by cs => cs.length
decreasing_by
  · simp
  · have := l.shorter
    simpa using this

/-- The tokens of a formula's text. -/
def tokens (source : String) : Except Fault (List Placed) :=
  tokensFrom 0 maxTokens source.toList

end ItemBudget.Formula
