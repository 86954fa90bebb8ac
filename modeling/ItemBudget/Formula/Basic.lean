import ItemBudget.Formula.Parser
import ItemBudget.Formula.Printer

/-!
# Cost formulas

A formula is a text of the formula language, read once. The empty formula costs nothing, and a
result that is not finite counts as 0. A formula charges one bound of an attribute, whose weight and
two ends bind the six variables; it is valid when it has a value with all six bound.
-/

namespace ItemBudget

/-- A formula that was read: its tree, or none for a text without tokens. -/
structure Formula where
  tree : Option Formula.Expr
deriving DecidableEq

namespace Formula

/-- The formula charged when none is chosen. -/
def defaultText : String := "weight * max"

/-- Reads a formula. -/
def ofText? (source : String) : Except Fault Formula :=
  (parse source).map Formula.mk

/-- The formula in its written form; the empty formula has none. -/
def text (f : Formula) : String := (f.tree.map Expr.text).getD ""

/-- The formula's variables in order of first appearance. -/
def vars (f : Formula) : List String := (f.tree.map Expr.vars).getD []

/-- Two formulas have the same tree, numbers compared as doubles. -/
def same (f g : Formula) : Bool :=
  match f.tree, g.tree with
  | none, none => true
  | some a, some b => a.same b
  | _, _ => false

/-- The value of a formula: 0 when it is empty or the result is not finite. -/
def eval (f : Formula) (vars : Bindings) : Except Fault Float :=
  match f.tree with
  | none => .ok 0.0
  | some e => do
    let x ← e.eval vars
    return if x.isFinite then x else 0.0

/-- Reads and evaluates a formula. -/
def evalText (source : String) (vars : Bindings) : Except Fault Float := do
  (← ofText? source).eval vars

/-- What a formula is charged for: an attribute's weight and the two ends of a bound. -/
structure Charge where
  weight : Float
  min : Float
  max : Float

/-- The middle of the bound. -/
def Charge.avg (c : Charge) : Float := (c.min + c.max) / 2.0

/-- The width of the bound. -/
def Charge.range (c : Charge) : Float := c.max - c.min

/-- The variables that a formula can use. -/
def variableNames : List String := ["weight", "min", "max", "avg", "range", "value"]

/-- The six variables and their values; `value` is the upper end. -/
def Charge.values (c : Charge) : List (String × Float) :=
  variableNames.zip [c.weight, c.min, c.max, c.avg, c.range, c.max]

/-- The six variables bound. -/
def Charge.bindings (c : Charge) : Bindings := fun n => c.values.lookup n

/-- The cost of one bound under a formula's text. -/
def attributeCost (source : String) (c : Charge) : Except Fault Float :=
  evalText source c.bindings

/-- All six variables bound to 1. -/
def unitBindings : Bindings := fun n => if n ∈ variableNames then some 1.0 else none

/-- A formula's text is valid when it reads and every variable is one of the six. -/
def validate (source : String) : Except Fault Unit :=
  (evalText source unitBindings).map fun _ => ()

/-- The text contains an operator's character. A text without one is the name of a formula. -/
def hasOperator (source : String) : Bool :=
  source.toList.any fun c => c = '+' || c = '-' || c = '*' || c = '/' || c = '^'

/-- The text that is charged for a configured formula: a name that stands for no formula counts as
the default one. -/
def resolved (source : String) : String :=
  if hasOperator source then source else defaultText

end Formula

end ItemBudget
