import ItemBudget.Formula.Token

/-!
# Expression trees

The tree of a formula and its readings: the variables in order of first appearance, the reverse
Polish text, the value under a binding of variables. Evaluation goes left to right and stops at the
first variable without a value; the arithmetic is that of doubles.
-/

namespace ItemBudget.Formula

/-- A formula's tree. -/
inductive Expr where
  | number (value : Float)
  | var (name : String)
  | neg (operand : Expr)
  | binary (op : BinaryOp) (left right : Expr)
deriving DecidableEq

/-- A value for some variables. -/
abbrev Bindings := String → Option Float

/-- The operation on doubles that an operator stands for. -/
def BinaryOp.apply : BinaryOp → Float → Float → Float
  | .add, a, b => a + b
  | .sub, a, b => a - b
  | .mul, a, b => a * b
  | .div, a, b => a / b
  | .pow, a, b => Float.pow a b

namespace Expr

/-- The value of a tree. -/
def eval (vars : Bindings) : Expr → Except Fault Float
  | number x => .ok x
  | var n =>
    match vars n with
    | some x => .ok x
    | none => .error (.unknownVariable n)
  | neg e => do return -(← e.eval vars)
  | binary o l r => do
    let a ← l.eval vars
    let b ← r.eval vars
    return o.apply a b

/-- The variables at the leaves, left to right, with repetitions. -/
def occurrences : Expr → List String
  | number _ => []
  | var n => [n]
  | neg e => e.occurrences
  | binary _ l r => l.occurrences ++ r.occurrences

/-- The variables in order of first appearance. -/
def vars (e : Expr) : List String :=
  e.occurrences.eraseDups

/-- The parts of the tree in reverse Polish order: operands before their operator. -/
def polish : Expr → List String
  | number x => ["#" ++ Decimal.plain x]
  | var n => [n]
  | neg e => e.polish ++ ["neg()"]
  | binary o l r => l.polish ++ r.polish ++ [String.singleton o.symbol]

/-- Two trees are the same when their shapes, names and operators are, and their numbers compare
equal as doubles. -/
def same : Expr → Expr → Bool
  | .number x, .number y => x == y
  | .var m, .var n => m == n
  | .neg a, .neg b => a.same b
  | .binary o a b, .binary p c d => o == p && a.same c && b.same d
  | _, _ => false

end Expr

end ItemBudget.Formula
