import ItemBudget.Formula.Parser
import ItemBudget.Formula.Printer

/-!
# The grammar of formulas

`Derives` says which tokens are a phrase, of which tree, and how deep the phrase is nested:

* sum: product, or sum (`+` | `-`) product
* product: power, or product (`*` | `/`) power
* power: operand, or operand `^` power
* operand: atom, or `-` operand
* atom: a number, a name, or `(` sum `)`

Sums and products are chains (`Phrase.IsChain`): parts joined from the left by operators of one
strength.
-/

namespace ItemBudget.Formula

/-- The kinds of phrases. -/
inductive Phrase where
  | sum | product | power | operand | atom
deriving DecidableEq

/-- The tokens of a phrase and their tree, with the most nested steps on a path of the derivation: a
group, the operand of a minus sign and an exponent are one step each. -/
inductive Derives : Phrase → Nat → List Token → Expr → Prop
  | number (x : Float) : Derives .atom 0 [.number x] (.number x)
  | name (n : String) : Derives .atom 0 [.name n] (.var n)
  | group {d : Nat} {ts : List Token} {e : Expr} (inner : Derives .sum d ts e) :
    Derives .atom (d + 1) (.opening :: (ts ++ [.closing])) e
  | ofAtom {d : Nat} {ts : List Token} {e : Expr} (atom : Derives .atom d ts e) :
    Derives .operand d ts e
  | neg {d : Nat} {ts : List Token} {e : Expr} (operand : Derives .operand d ts e) :
    Derives .operand (d + 1) (.op .sub :: ts) (.neg e)
  | ofOperand {d : Nat} {ts : List Token} {e : Expr} (operand : Derives .operand d ts e) :
    Derives .power d ts e
  | power {d d' : Nat} {ts us : List Token} {a b : Expr} (base : Derives .operand d ts a)
    (exponent : Derives .power d' us b) :
    Derives .power (max d (d' + 1)) (ts ++ .op .pow :: us) (.binary .pow a b)
  | ofPower {d : Nat} {ts : List Token} {e : Expr} (power : Derives .power d ts e) :
    Derives .product d ts e
  | product {o : BinaryOp} {d d' : Nat} {ts us : List Token} {a b : Expr}
    (op : o.isProduct = true) (left : Derives .product d ts a) (right : Derives .power d' us b) :
    Derives .product (max d d') (ts ++ .op o :: us) (.binary o a b)
  | ofProduct {d : Nat} {ts : List Token} {e : Expr} (product : Derives .product d ts e) :
    Derives .sum d ts e
  | sum {o : BinaryOp} {d d' : Nat} {ts us : List Token} {a b : Expr}
    (op : o.isSum = true) (left : Derives .sum d ts a) (right : Derives .product d' us b) :
    Derives .sum (max d d') (ts ++ .op o :: us) (.binary o a b)

namespace Phrase

/-- The phrases that a phrase of this kind is made of. -/
def part : Phrase → Phrase
  | sum => product
  | product => power
  | power => operand
  | operand => atom
  | atom => atom

/-- How strongly an operator that joins parts of the phrase binds; more strongly than any operator
for a phrase without such operators. -/
def strength : Phrase → Nat
  | sum => 1
  | product => 2
  | power => 3
  | operand => 4
  | atom => 5

/-- A sum or a product: parts in a row, joined from the left. -/
def IsChain (ph : Phrase) : Prop := ph = sum ∨ ph = product

end Phrase

theorem isSum_iff {o : BinaryOp} : o.isSum = true ↔ o.strength = 1 := by
  cases o <;> decide

theorem isProduct_iff {o : BinaryOp} : o.isProduct = true ↔ o.strength = 2 := by
  cases o <;> decide

theorem strength_le (o : BinaryOp) : o.strength ≤ 3 := by
  cases o <;> decide

/-- A part is a phrase by itself. -/
theorem Derives.ofPart {ph : Phrase} {d : Nat} {ts : List Token} {e : Expr}
    (h : Derives ph.part d ts e) : Derives ph d ts e := by
  cases ph with
  | sum => exact .ofProduct h
  | product => exact .ofPower h
  | power => exact .ofOperand h
  | operand => exact .ofAtom h
  | atom => exact h

/-- A phrase of a stronger kind is one of every weaker kind. -/
theorem Derives.weaken {ph ph' : Phrase} {d : Nat} {ts : List Token} {e : Expr}
    (h : Derives ph d ts e) (hle : ph'.strength ≤ ph.strength) : Derives ph' d ts e := by
  induction hn : ph.strength - ph'.strength generalizing ph' with
  | zero =>
    obtain rfl : ph' = ph := by
      cases ph <;> cases ph' <;> first | rfl | exact absurd hle (by decide) | cases hn
    exact h
  | succ n ih =>
    have hpart : ph'.part.strength = ph'.strength + 1 := by
      cases ph' <;> first | rfl | (cases ph <;> cases hn)
    exact (ih (by omega) (by omega)).ofPart

/-- A phrase has more tokens than nested steps. -/
theorem Derives.depth_lt {ph : Phrase} {d : Nat} {ts : List Token} {e : Expr}
    (h : Derives ph d ts e) : d < ts.length := by
  induction h with
  | number | name => exact Nat.zero_lt_one
  | group => rw [List.length_cons, List.length_append]; omega
  | neg => rw [List.length_cons]; omega
  | power | product | sum => rw [List.length_append, List.length_cons]; omega
  | ofAtom _ ih | ofOperand _ ih | ofPower _ ih | ofProduct _ ih => exact ih

/-! ## Leaves -/

/-- The numbers and the names have these properties. -/
def Expr.Leaves (p : Float → Prop) (q : String → Prop) : Expr → Prop
  | .number x => p x
  | .var n => q n
  | .neg e => e.Leaves p q
  | .binary _ l r => l.Leaves p q ∧ r.Leaves p q

/-- The token, where it is a number or a name, has the property. -/
def Token.IsLeaf (p : Float → Prop) (q : String → Prop) : Token → Prop
  | .number x => p x
  | .name n => q n
  | _ => True

/-- The leaves of a tree are tokens of the phrase. -/
theorem Derives.leaves {p : Float → Prop} {q : String → Prop} {ph : Phrase} {d : Nat}
    {ts : List Token} {e : Expr} (h : Derives ph d ts e) (hts : ∀ t ∈ ts, t.IsLeaf p q) :
    e.Leaves p q := by
  induction h with
  | number x => exact hts _ List.mem_cons_self
  | name n => exact hts _ List.mem_cons_self
  | group _ ih =>
    exact ih fun t ht => hts t (List.mem_cons_of_mem _ (List.mem_append_left _ ht))
  | neg _ ih => exact ih fun t ht => hts t (List.mem_cons_of_mem _ ht)
  | power _ _ iha ihb | product _ _ _ iha ihb | sum _ _ _ iha ihb =>
    obtain ⟨ha, hb⟩ := List.forall_mem_append.1 hts
    exact ⟨iha ha, ihb (List.forall_mem_cons.1 hb).2⟩
  | ofAtom _ ih | ofOperand _ ih | ofPower _ ih | ofProduct _ ih => exact ih hts

/-! ## Operators -/

namespace BinaryOp

/-- The kind of phrase that an operator makes. -/
def phrase : BinaryOp → Phrase
  | add | sub => .sum
  | mul | div => .product
  | pow => .power

/-- The kind of phrase before an operator. -/
def leftPhrase : BinaryOp → Phrase
  | add | sub => .sum
  | mul | div => .product
  | pow => .operand

/-- The kind of phrase after an operator. -/
def rightPhrase : BinaryOp → Phrase
  | add | sub => .product
  | mul | div => .power
  | pow => .power

/-- The nested steps into what stands after an operator. -/
def steps : BinaryOp → Nat
  | pow => 1
  | _ => 0

theorem strength_phrase (o : BinaryOp) : o.phrase.strength = o.strength := by
  cases o <;> rfl

end BinaryOp

theorem Derives.binary {o : BinaryOp} {d d' : Nat} {ts us : List Token} {a b : Expr}
    (ha : Derives o.leftPhrase d ts a) (hb : Derives o.rightPhrase d' us b) :
    Derives o.phrase (max d (d' + o.steps)) (ts ++ .op o :: us) (.binary o a b) := by
  cases o with
  | add => exact .sum rfl ha hb
  | sub => exact .sum rfl ha hb
  | mul => exact .product rfl ha hb
  | div => exact .product rfl ha hb
  | pow => exact .power ha hb

/-- A chain goes on with an operator of its strength and one more part. -/
theorem Derives.chain {ph : Phrase} (hp : ph.IsChain) {o : BinaryOp} {d d' : Nat}
    {ts us : List Token} {a b : Expr} (ho : o.strength = ph.strength) (ha : Derives ph d ts a)
    (hb : Derives ph.part d' us b) :
    Derives ph (max d d') (ts ++ .op o :: us) (.binary o a b) := by
  rcases hp with rfl | rfl
  · exact .sum (isSum_iff.2 ho) ha hb
  · exact .product (isProduct_iff.2 ho) ha hb

end ItemBudget.Formula
