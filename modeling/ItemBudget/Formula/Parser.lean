import ItemBudget.Formula.Expr

/-!
# Reading a formula

The grammar, with everything between brackets optional and `…` for repetition:

* sum: product [(`+` | `-`) product …]
* product: power [(`*` | `/`) power …]
* power: operand [`^` power]
* operand: `-` operand, or a number, a name, `(` sum `)`

A group, the operand of a minus sign and an exponent each open a nesting level. Every reader gives
back the tokens it left, with a proof that there are fewer of them, and that is why reading ends. The
readers share one measure, a number, so that a given text can be read by evaluation.
-/

namespace ItemBudget.Formula

/-- A tree read from the front of a list of tokens, and the tokens that follow it. -/
structure Parsed (ts : List Placed) where
  tree : Expr
  rest : List Placed
  shorter : rest.length < ts.length

/-- The same reading seen from a longer list of tokens. -/
def Parsed.widen {ts us : List Placed} (p : Parsed ts) (tree : Expr)
    (h : ts.length ≤ us.length) : Parsed us :=
  ⟨tree, p.rest, Nat.lt_of_lt_of_le p.shorter h⟩

/-- The operators of a sum. -/
def BinaryOp.isSum : BinaryOp → Bool
  | .add | .sub => true
  | _ => false

/-- The operators of a product. -/
def BinaryOp.isProduct : BinaryOp → Bool
  | .mul | .div => true
  | _ => false

mutual

/-- Reads a sum; `depth` nesting levels are open. -/
def readSum (depth : Nat) (ts : List Placed) : Except Fault (Parsed ts) := do
  let p ← readProduct depth ts
  let q ← readSumTail depth p.tree p.rest
  return ⟨q.1, q.2.1, Nat.lt_of_le_of_lt q.2.2 p.shorter⟩
termination_by 7 * ts.length + 5
decreasing_by
  · omega
  · have := p.shorter
    omega

/-- Reads the further terms of a sum whose terms so far are `left`. -/
def readSumTail (depth : Nat) (left : Expr) (ts : List Placed) :
    Except Fault (Expr × { rest : List Placed // rest.length ≤ ts.length }) :=
  match ts with
  | ⟨.op o, _⟩ :: us =>
    if o.isSum then do
      let p ← readProduct depth us
      let q ← readSumTail depth (.binary o left p.tree) p.rest
      return (q.1, ⟨q.2.1, by
        have := p.shorter; have := q.2.2; simp only [List.length_cons]; omega⟩)
    else .ok (left, ⟨⟨.op o, _⟩ :: us, Nat.le_refl _⟩)
  | ts => .ok (left, ⟨ts, Nat.le_refl _⟩)
termination_by 7 * ts.length + 6
decreasing_by
  · simp only [List.length_cons]
    omega
  · have := p.shorter
    simp only [List.length_cons]
    omega

/-- Reads a product. -/
def readProduct (depth : Nat) (ts : List Placed) : Except Fault (Parsed ts) := do
  let p ← readPower depth ts
  let q ← readProductTail depth p.tree p.rest
  return ⟨q.1, q.2.1, Nat.lt_of_le_of_lt q.2.2 p.shorter⟩
termination_by 7 * ts.length + 3
decreasing_by
  · omega
  · have := p.shorter
    omega

/-- Reads the further factors of a product whose factors so far are `left`. -/
def readProductTail (depth : Nat) (left : Expr) (ts : List Placed) :
    Except Fault (Expr × { rest : List Placed // rest.length ≤ ts.length }) :=
  match ts with
  | ⟨.op o, _⟩ :: us =>
    if o.isProduct then do
      let p ← readPower depth us
      let q ← readProductTail depth (.binary o left p.tree) p.rest
      return (q.1, ⟨q.2.1, by
        have := p.shorter; have := q.2.2; simp only [List.length_cons]; omega⟩)
    else .ok (left, ⟨⟨.op o, _⟩ :: us, Nat.le_refl _⟩)
  | ts => .ok (left, ⟨ts, Nat.le_refl _⟩)
termination_by 7 * ts.length + 4
decreasing_by
  · simp only [List.length_cons]
    omega
  · have := p.shorter
    simp only [List.length_cons]
    omega

/-- Reads a power; its exponent opens a nesting level. -/
def readPower (depth : Nat) (ts : List Placed) : Except Fault (Parsed ts) := do
  let p ← readOperand depth ts
  match h : p.rest with
  | ⟨.op .pow, _⟩ :: us =>
    if depth < maxDepth then do
      let q ← readPower (depth + 1) us
      return q.widen (.binary .pow p.tree q.tree) (by
        have := p.shorter; simp only [h, List.length_cons] at this; omega)
    else .error .tooDeep
  | _ => return p
termination_by 7 * ts.length + 2
decreasing_by
  · omega
  · have := p.shorter
    simp only [h, List.length_cons] at this
    omega

/-- Reads an operand; a minus sign and a group open a nesting level. -/
def readOperand (depth : Nat) (ts : List Placed) : Except Fault (Parsed ts) :=
  match ts with
  | [] => .error .unexpectedEnd
  | ⟨.number x, _⟩ :: us => .ok ⟨.number x, us, Nat.lt_succ_self _⟩
  | ⟨.name n, _⟩ :: us => .ok ⟨.var n, us, Nat.lt_succ_self _⟩
  | ⟨.op .sub, _⟩ :: us =>
    if depth < maxDepth then do
      let p ← readOperand (depth + 1) us
      return p.widen (.neg p.tree) (by simp)
    else .error .tooDeep
  | ⟨.opening, _⟩ :: us =>
    if depth < maxDepth then do
      let p ← readSum (depth + 1) us
      match h : p.rest with
      | [] => .error .unbalancedParens
      | ⟨.closing, _⟩ :: vs =>
        return ⟨p.tree, vs, by
          have := p.shorter; simp only [h, List.length_cons] at this ⊢; omega⟩
      | t :: _ => .error (.unexpectedToken t.token.text t.pos)
    else .error .tooDeep
  | t :: _ => .error (.unexpectedToken t.token.text t.pos)
termination_by 7 * ts.length + 1
decreasing_by
  all_goals
    simp only [List.length_cons]
    omega

end

/-- Reads a sum that takes all tokens. -/
def readAll (ts : List Placed) : Except Fault Expr := do
  let p ← readSum 0 ts
  match p.rest with
  | [] => return p.tree
  | ⟨.closing, _⟩ :: _ => .error .unbalancedParens
  | t :: _ => .error (.unexpectedToken t.token.text t.pos)

/-- The tree that a text writes; a text without tokens writes none. -/
def parse (source : String) : Except Fault (Option Expr) := do
  match ← tokens source with
  | [] => return none
  | ts => return some (← readAll ts)

end ItemBudget.Formula
