import ItemBudget.Formula.Expr

/-!
# Writing a formula

A tree is written with the fewest parentheses that keep its shape: `+ -` bind least, then `* /`,
then `^`, then the minus sign. A left operand of equal strength needs none under `+ - * /`, a right
one none under `^`. One space stands on either side of an operator that joins two operands.
-/

namespace ItemBudget.Formula

/-- How strongly an operator binds. -/
def BinaryOp.strength : BinaryOp → Nat
  | .add | .sub => 1
  | .mul | .div => 2
  | .pow => 3

/-- How strongly the top of a tree binds. -/
def Expr.strength : Expr → Nat
  | .binary o _ _ => o.strength
  | .neg _ => 4
  | _ => 5

/-- The text in parentheses when `group`. -/
def grouped (group : Bool) (text : List Char) : List Char :=
  if group then '(' :: (text ++ [')']) else text

/-- The characters of a written tree. -/
def Expr.render : Expr → List Char
  | .number x => (Decimal.plain x).toList
  | .var n => n.toList
  | .neg e => '-' :: grouped (e.strength < 4) e.render
  | .binary o l r =>
    let rightward := o = .pow
    grouped (l.strength < o.strength || (rightward && l.strength = o.strength)) l.render
      ++ ' ' :: o.symbol :: ' '
      :: grouped (r.strength < o.strength || (!rightward && r.strength = o.strength)) r.render

/-- The text of a tree. -/
def Expr.text (e : Expr) : String := String.ofList e.render

end ItemBudget.Formula
