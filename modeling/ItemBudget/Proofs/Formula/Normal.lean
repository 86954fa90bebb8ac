import ItemBudget.Proofs.Budget.Prices
import ItemBudget.Proofs.Formula.Nodes
import ItemBudget.Proofs.Formula.Written

/-!
# Normal forms

The text of a formula that was read is read again, within the limits (`ofText?_text_eq`). It is read
as the same formula when all numbers are finite. A number too great for a double is an infinity,
whose text is a name, and so its normal form has a variable in its place (`Expr.respelled`) that is
never bound.
-/

namespace ItemBudget.Formula

open Decimal (reading)
open Float.Model.UnpackedFloat (Sign)

/-! ## What the leaves of a formula can be -/

/-- A number as it is read: finite and without a sign, or infinite. -/
def IsLiteral (x : Float) : Prop := IsUnsigned x ∨ x = Decimal.infinity false

/-- What a text is read as has such numbers and lower-case identifiers. -/
def Expr.Readable : Expr → Prop := Expr.Leaves IsLiteral IsName

theorem isLiteral_of_readLiteral? {run : List Char} {x : Float}
    (hrun : ∀ c ∈ run, isNumeral c = true) (h : readLiteral? run = some x) : IsLiteral x := by
  unfold readLiteral? at h
  split_ifs at h
  obtain ⟨d, rfl⟩ := Double.exists_toFloat_of_readFloat? (fun c hc => by
    simpa only [isNumeral, Bool.or_eq_true, decide_eq_true_eq] using hrun c hc) h
  exact Double.reading_toFloat d

theorem isLower_or_of_continuesName {c : Char} (h : continuesName c = true) :
    c.toLower.isLower = true ∨ c.toLower.isDigit = true ∨ c.toLower = '_' := by
  simp only [continuesName, Char.isAlphanum, Bool.or_eq_true, decide_eq_true_eq] at h
  rcases h with (h | h) | rfl
  · exact .inl (by rw [Char.isLower_toLower_eq_isAlpha, h])
  · exact .inr (.inl (by rw [Double.toLower_of_digit_or_point (.inl h), h]))
  · exact .inr (.inr rfl)

theorem isLower_or_of_startsName {c : Char} (h : startsName c = true) :
    c.toLower.isLower = true ∨ c.toLower = '_' := by
  simp only [startsName, Bool.or_eq_true, decide_eq_true_eq] at h
  rcases h with h | rfl
  · exact .inl (by rw [Char.isLower_toLower_eq_isAlpha, h])
  · exact .inr rfl

theorem Starts.isLeaf {cs rest : List Char} {t : Token} (h : Starts cs t rest) :
    t.IsLeaf IsLiteral IsName := by
  cases h with
  | @symbol c t _ symbol =>
    unfold Token.ofSymbol? at symbol
    split at symbol <;> cases symbol <;> trivial
  | number first numerals _ value =>
    exact isLiteral_of_readLiteral? (List.forall_mem_cons.2 ⟨first, numerals⟩) value
  | @name c run _ first letters _ =>
    refine ⟨c.toLower, run.map Char.toLower, by rw [String.toList_ofList]; rfl,
      isLower_or_of_startsName first, ?_⟩
    intro c' hc'
    obtain ⟨c'', hc'', rfl⟩ := List.mem_map.1 hc'
    exact isLower_or_of_continuesName (letters c'' hc'')

theorem Lexes.isLeaf {cs : List Char} {ts : List Token} (h : Lexes cs ts) :
    ∀ t ∈ ts, t.IsLeaf IsLiteral IsName := by
  induction h with
  | nil => exact fun _ h => nomatch h
  | gap _ _ ih => exact ih
  | token first _ ih => exact List.forall_mem_cons.2 ⟨first.isLeaf, ih⟩

theorem unpack_of_isLiteral {x : Float} {s : Sign} (h : IsLiteral x)
    (hx : x.toModel.unpack = .zero s) : s = .positive := by
  cases s with
  | positive => rfl
  | negative =>
    rcases h with ⟨m, q, hr⟩ | rfl
    · rw [reading, hx] at hr
      cases hr
    · rw [Double.infinity_eq] at hx
      cases hx

/-- Numbers of a formula that was read are the same when they compare equal. -/
theorem IsLiteral.eq_of_beq {x y : Float} (hx : IsLiteral x) (hy : IsLiteral y)
    (h : (x == y) = true) : x = y := by
  rcases Double.eq_of_beq h with heq | ⟨s, t, hs, ht⟩
  · exact heq
  · rw [unpack_of_isLiteral hx hs] at hs
    rw [unpack_of_isLiteral hy ht] at ht
    rw [← Double.ofUnpacked_unpack x, hs, ← ht, Double.ofUnpacked_unpack]

theorem Expr.eq_of_same {e e' : Expr} (he : e.Readable) (he' : e'.Readable)
    (h : e.same e' = true) : e = e' := by
  induction e generalizing e' with
  | number x =>
    cases e' with
    | number y => rw [IsLiteral.eq_of_beq he he' h]
    | _ => cases h
  | var n =>
    cases e' with
    | var m =>
      rw [Expr.same, beq_iff_eq] at h
      rw [h]
    | _ => cases h
  | neg e ih =>
    cases e' with
    | neg e' =>
      rw [Expr.same] at h
      rw [@ih e' he he' h]
    | _ => cases h
  | binary o l r ihl ihr =>
    cases e' with
    | binary p l' r' =>
      simp only [Expr.same, Bool.and_eq_true, beq_iff_eq] at h
      rw [h.1.1, @ihl l' he.1 he'.1 h.1.2, @ihr r' he.2 he'.2 h.2]
    | _ => cases h

/-! ## Infinite numbers -/

/-- No number of the tree is infinite. -/
def Expr.Finite : Expr → Prop := Expr.Leaves (· ≠ Decimal.infinity false) fun _ => True

/-- The tree that is read from the text of the tree: the text of an infinity is a name. -/
def Expr.respelled : Expr → Expr
  | .number x => if x = Decimal.infinity false then .var "inf" else .number x
  | .var n => .var n
  | .neg e => .neg e.respelled
  | .binary o l r => .binary o l.respelled r.respelled

theorem respelled_infinity : (Expr.number (Decimal.infinity false)).respelled = .var "inf" :=
  if_pos rfl

theorem respelled_number {x : Float} (h : x ≠ Decimal.infinity false) :
    (Expr.number x).respelled = .number x :=
  if_neg h

theorem plain_infinity : Decimal.plain (Decimal.infinity false) = "inf" := by
  decide +kernel

theorem strength_respelled (e : Expr) : e.respelled.strength = e.strength := by
  cases e with
  | number x => by_cases h : x = Decimal.infinity false <;> simp [Expr.respelled, h, Expr.strength]
  | _ => rfl

theorem needsGroup_respelled (e : Expr) (ph : Phrase) :
    e.respelled.needsGroup ph = e.needsGroup ph := by
  rw [Expr.needsGroup, strength_respelled]
  rfl

/-- A tree and the one that is read from its text have the same text. -/
theorem render_respelled (e : Expr) : e.respelled.render = e.render := by
  induction e with
  | number x =>
    by_cases h : x = Decimal.infinity false
    · subst h
      rw [respelled_infinity, Expr.render, Expr.render, plain_infinity]
    · rw [respelled_number h]
  | var n => rfl
  | neg e ih => rw [Expr.respelled, Expr.render, Expr.render, ih, strength_respelled]
  | binary o l r ihl ihr =>
    rw [Expr.respelled, render_binary, render_binary, ihl, ihr, needsGroup_respelled,
      needsGroup_respelled]

theorem text_respelled (e : Expr) : e.respelled.text = e.text := by
  rw [Expr.text, render_respelled, Expr.text]

theorem length_tokens_respelled (e : Expr) : e.respelled.tokens.length = e.tokens.length := by
  induction e with
  | number x => by_cases h : x = Decimal.infinity false <;> simp [Expr.respelled, h, Expr.tokens]
  | var n => rfl
  | neg e ih =>
    rw [Expr.respelled, Expr.tokens, Expr.tokens, List.length_cons, List.length_cons,
      length_wrapped, length_wrapped, ih, needsGroup_respelled]
  | binary o l r ihl ihr =>
    simp only [Expr.respelled, Expr.tokens, List.length_append, List.length_cons, length_wrapped,
      ihl, ihr, needsGroup_respelled]

theorem nesting_respelled (e : Expr) : e.respelled.nesting = e.nesting := by
  induction e with
  | number x => by_cases h : x = Decimal.infinity false <;> simp [Expr.respelled, h, Expr.nesting]
  | var n => rfl
  | neg e ih => simp only [Expr.respelled, Expr.nesting, ih, needsGroup_respelled]
  | binary o l r ihl ihr =>
    simp only [Expr.respelled, Expr.nesting, ihl, ihr, needsGroup_respelled]

theorem writable_respelled {e : Expr} (h : e.Readable) : e.respelled.Writable := by
  induction e with
  | number x =>
    by_cases hx : x = Decimal.infinity false
    · subst hx
      rw [respelled_infinity]
      exact ⟨'i', ['n', 'f'], rfl, by decide, by simp [Char.isLower]⟩
    · rw [respelled_number hx]
      exact Or.resolve_right h hx
  | var n => exact h
  | neg e ih => exact ih h
  | binary o l r ihl ihr => exact ⟨ihl h.1, ihr h.2⟩

/-- A tree is its own normal form when its numbers are finite. -/
theorem respelled_eq_iff {e : Expr} : e.respelled = e ↔ e.Finite := by
  induction e with
  | number x =>
    by_cases h : x = Decimal.infinity false
    · subst h
      rw [respelled_infinity]
      exact ⟨fun h => (nomatch h), fun h => absurd rfl h⟩
    · rw [respelled_number h]
      exact ⟨fun _ => h, fun _ => rfl⟩
  | var n => exact ⟨fun _ => trivial, fun _ => rfl⟩
  | neg e ih =>
    rw [Expr.respelled, Expr.neg.injEq]
    exact ih
  | binary o l r ihl ihr =>
    rw [Expr.respelled, Expr.binary.injEq]
    exact ⟨fun h => ⟨ihl.1 h.2.1, ihr.1 h.2.2⟩, fun h => ⟨rfl, ihl.2 h.1, ihr.2 h.2⟩⟩

theorem mem_occurrences_respelled {e : Expr} (h : ¬ e.Finite) :
    "inf" ∈ e.respelled.occurrences := by
  induction e with
  | number x =>
    obtain rfl : x = Decimal.infinity false := not_not.1 h
    rw [respelled_infinity]
    exact List.mem_singleton_self _
  | var n => exact absurd trivial h
  | neg e ih => exact ih h
  | binary o l r ihl ihr =>
    rcases not_and_or.1 h with h | h
    · exact List.mem_append_left _ (ihl h)
    · exact List.mem_append_right _ (ihr h)

/-! ## Operators -/

theorem hasOperator_text {e : Expr} (h : e.isLeaf = false) : hasOperator e.text = true := by
  rw [hasOperator_iff, Expr.text, String.toList_ofList]
  cases e with
  | number x => cases h
  | var n => cases h
  | neg e => exact ⟨.sub, List.mem_cons_self⟩
  | binary o l r =>
    refine ⟨o, ?_⟩
    rw [render_binary]
    exact List.mem_append_right _ (List.mem_cons_of_mem _ List.mem_cons_self)

/-! ## The normal form of a formula -/

/-- No number of the formula is infinite. -/
def Finite (f : Formula) : Prop := ∀ e ∈ f.tree, e.Finite

/-- The formula that is read from the text of the formula. -/
def respelled (f : Formula) : Formula := ⟨f.tree.map Expr.respelled⟩

variable {source : String} {f : Formula}

theorem formula_respelled_eq_iff : f.respelled = f ↔ f.Finite := by
  obtain ⟨_ | e⟩ := f
  · exact ⟨fun _ _ h => (nomatch h), fun _ => rfl⟩
  · simp only [respelled, Finite, Option.map_some, Option.mem_some_iff, forall_eq', Formula.mk.injEq,
      Option.some.injEq, respelled_eq_iff]

theorem readable_of_ofText? {e : Expr} (h : ofText? source = .ok ⟨some e⟩) : e.Readable := by
  obtain ⟨ts, d, hl, -, -, -, hder⟩ := ofText?_some_iff.1 h
  exact hder.leaves hl.isLeaf

/-- Formulas that were read are the same when they compare equal. -/
theorem eq_of_same {source' : String} {g : Formula} (hf : ofText? source = .ok f)
    (hg : ofText? source' = .ok g) (h : f.same g = true) : f = g := by
  obtain ⟨_ | e⟩ := f <;> obtain ⟨_ | e'⟩ := g
  · rfl
  · cases h
  · cases h
  · rw [Expr.eq_of_same (readable_of_ofText? hf) (readable_of_ofText? hg) h]

/-- **The text of a formula that was read is read**, with names in place of infinities. -/
theorem ofText?_text_eq (h : ofText? source = .ok f) : ofText? f.text = .ok f.respelled := by
  obtain ⟨_ | e⟩ := f
  · exact ofText?_none_iff.2 .nil
  · have hread : e.Readable := readable_of_ofText? h
    obtain ⟨ts, d, hl, -, hlen, hd, hder⟩ := ofText?_some_iff.1 h
    obtain ⟨htokens, hnesting⟩ := hder.fits
    rw [length_wrapped] at htokens
    show ofText? e.text = .ok ⟨some e.respelled⟩
    rw [← text_respelled]
    refine ofText?_text (writable_respelled hread) ?_ ?_
    · rw [length_tokens_respelled]; omega
    · rw [nesting_respelled]; omega

/-- A formula with an operator has a text with an operator. -/
theorem hasOperator_text_of_source (h : ofText? source = .ok f) (ho : hasOperator source = true) :
    hasOperator f.text = true := by
  obtain ⟨_ | e⟩ := f
  · obtain ⟨o, ho⟩ := hasOperator_iff.1 ho
    exact absurd ((ofText?_none_iff.1 h).op_mem_iff.2 ho) List.not_mem_nil
  · exact hasOperator_text ((hasOperator_iff_isLeaf_eq_false h).1 ho)

/-- Where the name of an infinity has no value, the formula read from the text has none. -/
theorem eval_respelled {vars : Bindings} (hf : ¬ f.Finite) (hv : vars "inf" = none) :
    (f.respelled.eval vars).isOk = false := by
  obtain ⟨_ | e⟩ := f
  · exact absurd (fun _ h => nomatch h) hf
  · have he : ¬ e.Finite := fun h => hf fun e' he' => by cases he'; exact h
    rw [Bool.eq_false_iff]
    intro hok
    have hsome := eval_isOk_iff.1 hok "inf" (mem_occurrences_respelled he)
    rw [hv] at hsome
    cases hsome

/-- The text of a formula with an infinity is not valid. -/
theorem validate_text_of_infinite (h : ofText? source = .ok f) (hf : ¬ f.Finite) :
    (validate f.text).isOk = false := by
  rw [validate_eq (ofText?_text_eq h), isOk_map]
  exact eval_respelled hf rfl

theorem validate_text_of_finite (h : ofText? source = .ok f) (hf : f.Finite) :
    validate f.text = validate source := by
  have ht := ofText?_text_eq h
  rw [formula_respelled_eq_iff.2 hf] at ht
  rw [validate_eq ht, validate_eq h]

/-- A formula that has no value for any charge costs what no formula costs. -/
theorem budgetUnder_of_unbound (hv : ∀ c : Charge, (f.eval c.bindings).isOk = false) (item : Item)
    (config : BudgetConfig) : budgetUnder (some f) item config = budgetUnder none item config := by
  -- only the costs of numeric bounds look at the formula
  have hb : ∀ w b, (boundCost (some f) w b).getD 0.0 = (boundCost none w b).getD 0.0 := by
    intro w b
    unfold boundCost
    split
    · have hc := hv ⟨w, boundValue b.min, boundValue b.max⟩
      cases he : f.eval (Charge.mk w (boundValue b.min) (boundValue b.max)).bindings with
      | error e =>
        simp only [he, Option.map_some, Option.map_none, Except.toOption, Option.getD_some,
          Option.getD_none]
      | ok x => rw [he] at hc; cases hc
    · rfl
  have ha : ∀ a, attributeTotal (some f) config.weights a = attributeTotal none config.weights a := by
    intro a
    rw [attributeTotal_eq_sum, attributeTotal_eq_sum]
    simp only [hb]
  unfold budgetUnder
  simp only [ha]

/-- **Normal forms keep what is finite.** -/
theorem normal_form_iff (h : ofText? source = .ok f) :
    (ofText? f.text = .ok f ↔ f.Finite) ∧
    (f.Finite → validate f.text = validate source) ∧
    ((validate f.text).isOk = (validate source).isOk ↔
      f.Finite ∨ (validate source).isOk = false) ∧
    ∀ (item : Item) (config : BudgetConfig), config.formula = source → hasOperator source = true →
      (f.Finite →
        budget item { config with formula := f.text } = budget item config ∧
        checkedBudget item { config with formula := f.text } = checkedBudget item config) ∧
      (¬ f.Finite →
        budget item { config with formula := f.text } = budgetUnder none item config ∧
        (checkedBudget item { config with formula := f.text }).isOk = false) := by
  have ht := ofText?_text_eq h
  refine ⟨?_, validate_text_of_finite h, ?_, ?_⟩
  · rw [ht, Except.ok.injEq, formula_respelled_eq_iff]
  · by_cases hf : f.Finite
    · simp only [hf, validate_text_of_finite h hf, true_or]
    · simp only [hf, validate_text_of_infinite h hf, false_or, eq_comm]
  · intro item config hs ho
    have hx := expression_eq hs ho
    have hx' := @expression_eq { config with formula := f.text } _ rfl
      (hasOperator_text_of_source h ho)
    refine ⟨fun hf => ?_, fun hf => ?_⟩
    · rw [formula_respelled_eq_iff.2 hf] at ht
      unfold budget checkedBudget
      rw [hx, hx', h, ht, validate_text_of_finite h hf]
      exact ⟨rfl, rfl⟩
    · unfold budget checkedBudget
      rw [hx', ht]
      refine ⟨budgetUnder_of_unbound (fun c => eval_respelled hf rfl) item _, ?_⟩
      have hv := validate_text_of_infinite h hf
      cases hc : validate f.text with
      | error e => rfl
      | ok u => rw [hc] at hv; cases hv

/-- A number that is too great for a double. -/
def nines : List Char := List.replicate 311 '9'

def overflowing : String := String.ofList ('-' :: nines)

def overflowed : Formula := ⟨some (.neg (.number (Decimal.infinity false)))⟩

theorem ofText?_overflowing : ofText? overflowing = .ok overflowed := by
  have hinf : readLiteral? nines = some (Decimal.infinity false) := by decide +kernel
  have hlex : Lexes nines [.number (Decimal.infinity false)] :=
    lexes_numerals (List.cons_ne_nil _ _) (fun c hc => by rw [List.eq_of_mem_replicate hc]; rfl) hinf
  have hder : Derives .sum 1 [.op .sub, .number (Decimal.infinity false)] _ :=
    .ofProduct (.ofPower (.ofOperand (.neg (.ofAtom (.number _)))))
  refine ofText?_some_iff.2 ⟨_, 1, ?_, by decide, by decide, by decide, hder⟩
  rw [overflowing, String.toList_ofList]
  exact .symbol rfl hlex

theorem not_finite_overflowed : ¬ overflowed.Finite := fun h => h _ rfl rfl

/-- The normal form of a number too great for a double is another formula, which is not valid. -/
theorem overflowing_changes : ofText? overflowing = .ok overflowed ∧
    ofText? overflowed.text ≠ .ok overflowed ∧ (validate overflowing).isOk = true ∧
    (validate overflowed.text).isOk = false := by
  refine ⟨ofText?_overflowing, ?_, ?_, validate_text_of_infinite ofText?_overflowing
    not_finite_overflowed⟩
  · rw [ofText?_text_eq ofText?_overflowing, Ne, Except.ok.injEq, formula_respelled_eq_iff]
    exact not_finite_overflowed
  · rw [validate_eq ofText?_overflowing]
    rfl

/-- The normal form of `-9…9` is not read as the same formula, and costs under it are those without
a formula. -/
theorem normal_form_of_overflowing : ofText? overflowing = .ok overflowed ∧
    ofText? overflowed.text ≠ .ok overflowed ∧
    ∀ (item : Item) (config : BudgetConfig), config.formula = overflowing →
      budget item { config with formula := overflowed.text } = budgetUnder none item config := by
  have hop : hasOperator overflowing = true := by
    rw [hasOperator_iff, overflowing, String.toList_ofList]
    exact ⟨.sub, List.mem_cons_self⟩
  obtain ⟨hread, -, -, hbudget⟩ := normal_form_iff ofText?_overflowing
  refine ⟨ofText?_overflowing, fun h => not_finite_overflowed (hread.1 h), ?_⟩
  intro item config hs
  exact ((hbudget item config hs hop).2 not_finite_overflowed).1

end ItemBudget.Formula
