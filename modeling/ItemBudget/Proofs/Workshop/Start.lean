import ItemBudget.Proofs.Definition.Charge
import ItemBudget.Proofs.Workshop.Refusal
import ItemBudget.Proofs.Workshop.Validity

/-!
# The formula a workshop starts with

A formula comes to loaded definitions in three ways. One from the book was checked when it was
added, and a name that the book does not know is charged as the default formula. Another text with
an operator is charged as it stands, and no load checks it. So the configuration of loaded
definitions is valid exactly when such a text is: `loaded_valid_iff`. A workshop starts with it all
the same, although it refuses to put it in force.
-/

namespace ItemBudget

open Formula (Fault hasOperator resolved validate)

namespace Formula

theorem resolved_of_hasOperator {source : String} (h : hasOperator source = true) :
    resolved source = source :=
  if_pos h

theorem validate_resolved_of_name {source : String} (h : hasOperator source = false) :
    validate (resolved source) = .ok () := by
  rw [resolved, h, if_neg Bool.false_ne_true]
  exact validate_defaultText

theorem validate_resolved {source : String} (h : validate source = .ok ()) :
    validate (resolved source) = .ok () := by
  cases ho : hasOperator source with
  | true => rwa [resolved_of_hasOperator ho]
  | false => exact validate_resolved_of_name ho

end Formula

namespace FormulaBook

theorem resolve_of_get? {b : FormulaBook} {value : String} {f : NamedFormula}
    (h : Table.get? b value = some f) : (resolve b value).toOption.getD value = f.expression := by
  simp only [resolve, h]
  rfl

theorem resolve_of_unknown {b : FormulaBook} {value : String} (h : Table.get? b value = none) :
    (resolve b value).toOption.getD value = value := by
  simp only [resolve, h]
  split <;> rfl

end FormulaBook

namespace Definitions

/-- The text in force, if it is a formula that the book does not know, is valid. -/
def Checked (d : Definitions) : Prop :=
  ∀ text, d.activeFormula = some text → Table.get? d.formulas text = none →
    hasOperator text = true → validate text = .ok ()

theorem validate_budgetConfig_iff {d : Definitions} (hd : Grows ∅ d) :
    validate d.budgetConfig.expression = .ok () ↔ d.Checked := by
  let value := d.activeFormula.getD Formula.defaultText
  have hvalue : ∀ text, d.activeFormula = some text → value = text := by
    intro text hactive
    exact congrArg (Option.getD · Formula.defaultText) hactive
  cases hbook : Table.get? d.formulas value with
  | some f =>
    have hexpression : d.budgetConfig.expression = resolved f.expression :=
      congrArg resolved (FormulaBook.resolve_of_get? hbook)
    rw [hexpression]
    refine iff_of_true (Formula.validate_resolved (valid_of_grows hd hbook).2) ?_
    intro text hactive hunknown
    rw [← hvalue text hactive, hbook] at hunknown
    cases hunknown
  | none =>
    have hexpression : d.budgetConfig.expression = resolved value :=
      congrArg resolved (FormulaBook.resolve_of_unknown hbook)
    rw [hexpression]
    constructor
    · intro hv text hactive _ ho
      rwa [hvalue text hactive, Formula.resolved_of_hasOperator ho] at hv
    · intro hchecked
      cases ho : hasOperator value with
      | false => exact Formula.validate_resolved_of_name ho
      | true =>
        rw [Formula.resolved_of_hasOperator ho]
        cases hactive : d.activeFormula with
        | none =>
          have hdefault : value = Formula.defaultText :=
            congrArg (Option.getD · Formula.defaultText) hactive
          rw [hdefault]
          exact validate_defaultText
        | some text =>
          have htext := hvalue text hactive
          rw [htext] at hbook ho ⊢
          exact hchecked text hactive hbook ho

end Definitions

namespace Workshop

variable {w : Workshop} {actor : String} {config : BudgetConfig} {now : Clock} {fault : Fault}

theorem setConfig_invalidFormula_iff :
    (w.setConfig actor config now).1 = .error (.invalidFormula fault) ↔
      validate config.expression = .error fault := by
  unfold setConfig
  cases h : validate config.expression with
  | error fault' => exact ⟨fun heq => by cases heq; rfl, fun heq => by cases heq; rfl⟩
  | ok u => exact iff_of_false (change_ne_invalidFormula (nomatch ·)) (nomatch ·)

/-- **When loaded definitions give a formula with a value**: exactly when the text in force is valid
or one that loading checks or replaces. It decides whether checked budgets are given, and whether a
workshop that starts with the configuration would put it in force. -/
theorem loaded_valid_iff (calls : List Load) :
    let d := Definitions.loaded ∅ calls
    let config := d.budgetConfig
    (validate config.expression = .ok () ↔ d.Checked) ∧
    (∀ item, checkedBudget item config
      = (validate config.expression).map fun _ => budget item config) ∧
    ∀ settings actor now fault,
      ((ofDefinitions d settings).setConfig actor (ofDefinitions d settings).store.config now).1
        = .error (.invalidFormula fault) ↔ validate config.expression = .error fault := by
  intro d config
  exact ⟨Definitions.validate_budgetConfig_iff (Definitions.grows_loaded ∅ calls),
    fun item => checkedBudget_eq item config, fun _ _ _ _ => setConfig_invalidFormula_iff⟩

/-- A text with an unknown variable is accepted and put in force, and the workshop that starts with
it has no checked budget and would refuse it. -/
theorem unchecked_in_force :
    let calls : List Load := [.text .activeFormula "(active_formula: \"weight * bogus\")"]
    let d := Definitions.loaded ∅ calls
    let w := ofDefinitions d ⟨none, none⟩
    Definitions.accepts ∅ calls = true ∧
    validate d.budgetConfig.expression = .error (.unknownVariable "bogus") ∧
    checkedBudget ⟨"Edge", "RARE", "Sword.IRON", []⟩ d.budgetConfig
      = .error (.unknownVariable "bogus") ∧
    (w.setConfig "ana" w.store.config ⟨0, ⟨0, 0⟩⟩).1
      = .error (.invalidFormula (.unknownVariable "bogus")) := by
  decide +kernel

end Workshop

end ItemBudget
