/-!
# What can be wrong with a formula

The faults of reading and of evaluating a formula. Positions are byte offsets in the text.
-/

namespace ItemBudget.Formula

/-- The most tokens of a formula. -/
def maxTokens : Nat := 1024

/-- The most nesting levels of a formula: groups, operands of a minus sign, exponents. -/
def maxDepth : Nat := 64

/-- The cause for which a formula is refused. -/
inductive Fault where
  /-- A character that starts no token. -/
  | invalidCharacter (char : Char) (pos : Nat)
  /-- A run of digits and points that is no number. -/
  | invalidNumber (literal : String)
  /-- A token where none of its kind can stand. -/
  | unexpectedToken (found : String) (pos : Nat)
  /-- The text ends where an operand must stand. -/
  | unexpectedEnd
  /-- A group that is not closed, or a closing parenthesis without a group. -/
  | unbalancedParens
  /-- A variable without a value. -/
  | unknownVariable (name : String)
  /-- More than `maxTokens` tokens. -/
  | tooLong
  /-- More than `maxDepth` nesting levels. -/
  | tooDeep
deriving DecidableEq, Repr

/-- The text shown for a fault. -/
def Fault.message : Fault → String
  | .invalidCharacter c pos =>
    "Invalid character '" ++ String.singleton c ++ "' at position " ++ toString pos
  | .invalidNumber literal => "Invalid number: " ++ literal
  | .unexpectedToken found pos =>
    "Unexpected token '" ++ found ++ "' at position " ++ toString pos
  | .unexpectedEnd => "Unexpected end of expression"
  | .unbalancedParens => "Unbalanced parentheses"
  | .unknownVariable name => "Unknown variable: " ++ name
  | .tooLong => "Formula is too long (more than " ++ toString maxTokens ++ " tokens)"
  | .tooDeep => "Formula is nested too deeply (more than " ++ toString maxDepth ++ " levels)"

end ItemBudget.Formula
