import ItemBudget.Proofs.Definition.Growth

/-!
# When definitions are accepted

An addition is accepted when the definitions take its entries, and then it puts them (`AcceptsAs`).
A definition text stands for the same entries whatever was loaded before: `entriesOf?`. It is
accepted exactly when it can be read and the definitions take these entries: `load_eq_accept_iff`.
-/

namespace ItemBudget.Definitions

variable {d d' : Definitions} {es : List Entry}

/-- A load that is accepted when the definitions take these entries, and then puts them. -/
def AcceptsAs (f : Definitions → Loaded) (es : List Entry) : Prop :=
  ∀ d d', f d = d'.accept ↔ d.Takes es ∧ d' = d.putAll es

theorem Puts.acceptsAs {f : Definitions → Loaded} (h : Puts f es) : AcceptsAs f es :=
  fun _ _ => h.eq_accept_iff

/-! ## One after the other -/

theorem addEach_cons_eq_accept_iff {α : Type} {add : Definitions → α → Loaded} {x : α}
    {xs : List α} :
    addEach add d (x :: xs) = d'.accept ↔
      ∃ d₁, add d x = d₁.accept ∧ addEach add d₁ xs = d'.accept := by
  simp only [addEach]
  cases h : add d x with
  | mk d₁ error =>
    cases error with
    | none =>
      constructor
      · intro hrest
        exact ⟨d₁, rfl, hrest⟩
      · rintro ⟨d₂, hfirst, hrest⟩
        rwa [accept_eq_iff.1 hfirst] at hrest
    | some e =>
      refine iff_of_false refuse_ne_accept ?_
      rintro ⟨d₂, hfirst, -⟩
      exact refuse_ne_accept hfirst

theorem acceptsAs_addEach {α : Type} {add : Definitions → α → Loaded} {entry : α → Entry}
    (hadd : ∀ x, AcceptsAs (add · x) [entry x]) (xs : List α) :
    AcceptsAs (addEach add · xs) (xs.map entry) := by
  intro d d'
  induction xs generalizing d with
  | nil => exact accept_eq_iff.trans (and_iff_right (takes_nil d)).symm
  | cons x xs ih =>
    have hx : ∀ d₁ : Definitions, add d x = d₁.accept ↔ _ := hadd x d
    simp only [addEach_cons_eq_accept_iff, hx, ih]
    have happend : (x :: xs).map entry = [entry x] ++ xs.map entry := rfl
    rw [happend, takes_append, putAll_append]
    constructor
    · rintro ⟨d₁, ⟨hfirst, rfl⟩, hrest, rfl⟩
      exact ⟨⟨hfirst, hrest⟩, rfl⟩
    · rintro ⟨⟨hfirst, hrest⟩, rfl⟩
      exact ⟨_, ⟨hfirst, rfl⟩, hrest, rfl⟩

/-! ## What a text defines -/

/-- The entries that a text of a kind stands for, if it can be read. -/
def entriesOf? (kind : DefinitionKind) (text : String) : Option (List Entry) :=
  match kind with
  | .formulas => (formulasOfText? text).map (·.map .formula)
  | .attributes => (attributesOfText? text).map (·.map .itemAttribute)
  | .weights => (weightsOfText? text).map (·.entries.map fun w => .weight w.1 w.2)
  | .allowances =>
    (allowancesOfText? text).map fun t =>
      (AllowanceTable.flatten t).map fun a => .allowance a.1 a.2.1 a.2.2
  | .activeFormula => (activeFormulaOfText? text).map ([.active ·])
  | .single =>
    match document? NamedFormula.ofDocument? text with
    | some f => some [.formula f]
    | none => (document? AttributeDefinition.ofDocument? text).map ([.itemAttribute ·])

theorem addRead_eq_accept_iff {α : Type} {add : Definitions → α → Loaded} {entries : α → List Entry}
    (hadd : ∀ x, AcceptsAs (add · x) (entries x)) (x? : Option α) :
    addRead add d x? = d'.accept ↔
      ∃ es, x?.map entries = some es ∧ d.Takes es ∧ d' = d.putAll es := by
  cases x? with
  | none =>
    refine iff_of_false refuse_ne_accept ?_
    rintro ⟨es, heq, -⟩
    cases heq
  | some x =>
    refine (hadd x d d').trans ⟨fun h => ⟨_, rfl, h⟩, ?_⟩
    rintro ⟨es, heq, h⟩
    cases heq
    exact h

/-- A text is accepted exactly when it can be read and the definitions take its entries. -/
theorem load_eq_accept_iff {kind : DefinitionKind} {text : String} :
    d.load kind text = d'.accept ↔
      ∃ es, entriesOf? kind text = some es ∧ d.Takes es ∧ d' = d.putAll es := by
  cases kind with
  | formulas =>
    exact addRead_eq_accept_iff (acceptsAs_addEach fun f => (puts_addFormula f).acceptsAs) _
  | attributes =>
    exact addRead_eq_accept_iff (acceptsAs_addEach fun a => (puts_addAttribute a).acceptsAs) _
  | weights => exact addRead_eq_accept_iff (fun t => (puts_addWeights t).acceptsAs) _
  | allowances => exact addRead_eq_accept_iff (fun t => (puts_addAllowances t).acceptsAs) _
  | activeFormula => exact addRead_eq_accept_iff (fun text => (puts_activate text).acceptsAs) _
  | single =>
    simp only [load, loadSingle, entriesOf?]
    cases document? NamedFormula.ofDocument? text with
    | some f => exact addRead_eq_accept_iff (fun f => (puts_addFormula f).acceptsAs) (some f)
    | none =>
      cases document? AttributeDefinition.ofDocument? text with
      | some a => exact addRead_eq_accept_iff (fun a => (puts_addAttribute a).acceptsAs) (some a)
      | none =>
        refine iff_of_false refuse_ne_accept ?_
        rintro ⟨es, heq, -⟩
        cases heq

end ItemBudget.Definitions
