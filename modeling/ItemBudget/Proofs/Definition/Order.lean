import ItemBudget.Proofs.Budget.Inputs
import ItemBudget.Proofs.Definition.Acceptance
import ItemBudget.Proofs.Table

/-!
# Definitions in any order

Texts that are loaded one after the other are accepted when each can be read and the empty
definitions take all their entries together, and these are then put: `accepts_and_loaded_iff`. So
neither acceptance nor what stands under a key depends on the order of the texts. `Alike` are
definitions that differ in the order of their entries only; under them items have the same issues
and the same budgets.
-/

namespace ItemBudget

/-! ## Tables by their entries -/

namespace AllowanceTable

theorem mem_flatten_iff {t : AllowanceTable} {rarity className : String} {x : Float} :
    (rarity, className, x) ∈ flatten t ↔ get? t rarity className = some x := by
  rw [flatten, List.mem_flatMap, get?, Option.bind_eq_some_iff]
  constructor
  · rintro ⟨⟨rarity', row⟩, hrow, hmem⟩
    obtain ⟨e, he, heq⟩ := List.mem_map.1 hmem
    cases heq
    exact ⟨row, Table.mem_entries_iff.1 hrow, Table.mem_entries_iff.1 he⟩
  · rintro ⟨row, hrow, hx⟩
    exact ⟨(rarity, row), Table.mem_entries_iff.2 hrow,
      List.mem_map.2 ⟨(className, x), Table.mem_entries_iff.2 hx, rfl⟩⟩

theorem perm_flatten {t t' : AllowanceTable}
    (h : ∀ rarity className, get? t rarity className = get? t' rarity className) :
    (flatten t).Perm (flatten t') := by
  refine (List.perm_ext_iff_of_nodup (nodup_flatten t).of_map (nodup_flatten t').of_map).2 ?_
  rintro ⟨rarity, className, x⟩
  rw [mem_flatten_iff, mem_flatten_iff, h]

end AllowanceTable

/-- A budget reads its configuration by the formula, the weights and the allowances. -/
theorem budget_congr {c c' : BudgetConfig} (hformula : c.formula = c'.formula)
    (hweights : ∀ name, c.weights.get? name = c'.weights.get? name)
    (hallowances : ∀ rarity className,
      AllowanceTable.get? c.allowances rarity className
        = AllowanceTable.get? c'.allowances rarity className)
    (item : Item) : budget item c = budget item c' := by
  refine budget_eq_of_view rfl rfl rfl ?_ (fun v _ => ?_) ?_
  · rw [BudgetConfig.expression, BudgetConfig.expression, hformula]
  · rw [WeightTable.weight, WeightTable.weight, hweights]
  · rw [AllowanceTable.allowed, AllowanceTable.allowed, hallowances]

namespace Definitions

open Entry (Key)

variable {d d' : Definitions}

/-! ## Alike definitions -/

/-- Definitions that differ in the order of their entries only. -/
structure Alike (d d' : Definitions) : Prop where
  formulas : d.formulas.entries.Perm d'.formulas.entries
  attributes : d.attributes.entries.Perm d'.attributes.entries
  weights : d.weights.entries.Perm d'.weights.entries
  rarities : d.allowances.keys.Perm d'.allowances.keys
  allowances : d.allowances.flatten.Perm d'.allowances.flatten
  activeFormula : d.activeFormula = d'.activeFormula

/-- A rarity enters the allowances with a class. -/
theorem exists_get?_of_grows (h : Grows ∅ d) {rarity : String} {row : Table Float}
    (hrow : Table.get? d.allowances rarity = some row) :
    ∃ className x, row.get? className = some x := by
  induction h generalizing row with
  | refl => cases hrow
  | tail _ hadds ih =>
    obtain ⟨e, -, -, rfl⟩ := hadds.exists_put
    cases e with
    | allowance rarity' className x =>
      simp only [put, AllowanceTable.set, Table.get?_insert] at hrow
      split at hrow
      · cases hrow
        exact ⟨className, x, by rw [Table.get?_insert, if_pos rfl]⟩
      · exact ih hrow
    | _ => exact ih hrow

theorem mem_rarities_iff (h : Grows ∅ d) {rarity : String} :
    rarity ∈ d.allowances.keys ↔
      ∃ className x, AllowanceTable.get? d.allowances rarity className = some x := by
  rw [Table.mem_keys_iff]
  constructor
  · rintro ⟨row, hrow⟩
    obtain ⟨className, x, hx⟩ := exists_get?_of_grows h hrow
    exact ⟨className, x, Option.bind_eq_some_iff.2 ⟨row, hrow, hx⟩⟩
  · rintro ⟨className, x, hx⟩
    obtain ⟨row, hrow, -⟩ := Option.bind_eq_some_iff.1 hx
    exact ⟨row, hrow⟩

section SameEntries

variable (h : ∀ k : Key, d.at? k = d'.at? k)

include h

theorem get?_formulas_eq (name : String) :
    Table.get? d.formulas name = Table.get? d'.formulas name :=
  (Option.map_inj_right fun _ _ => Entry.formula.inj).1 (h (.formula name))

theorem get?_attributes_eq (name : String) :
    Table.get? d.attributes name = Table.get? d'.attributes name :=
  (Option.map_inj_right fun _ _ => Entry.itemAttribute.inj).1 (h (.itemAttribute name))

theorem get?_weights_eq (name : String) : d.weights.get? name = d'.weights.get? name :=
  (Option.map_inj_right fun _ _ heq => (Entry.weight.inj heq).2).1 (h (.weight name))

theorem get?_allowances_eq (rarity className : String) :
    AllowanceTable.get? d.allowances rarity className
      = AllowanceTable.get? d'.allowances rarity className :=
  (Option.map_inj_right fun _ _ heq => (Entry.allowance.inj heq).2.2).1
    (h (.allowance rarity className))

theorem activeFormula_eq : d.activeFormula = d'.activeFormula :=
  (Option.map_inj_right fun _ _ => Entry.active.inj).1 (h .active)

theorem alike_of_entries (hd : Grows ∅ d) (hd' : Grows ∅ d') : d.Alike d' where
  formulas := Table.perm_entries (get?_formulas_eq h)
  attributes := Table.perm_entries (get?_attributes_eq h)
  weights := Table.perm_entries (get?_weights_eq h)
  rarities := by
    refine (List.perm_ext_iff_of_nodup (Table.nodup _) (Table.nodup _)).2 fun rarity => ?_
    show rarity ∈ Table.keys _ ↔ rarity ∈ Table.keys _
    simp only [mem_rarities_iff hd, mem_rarities_iff hd', get?_allowances_eq h]
  allowances := AllowanceTable.perm_flatten (get?_allowances_eq h)
  activeFormula := activeFormula_eq h

theorem issues_eq (item : Item) :
    AttributeBook.issues d.attributes item = AttributeBook.issues d'.attributes item := by
  simp only [AttributeBook.issues, get?_attributes_eq h]

theorem formula_budgetConfig_eq : d.budgetConfig.formula = d'.budgetConfig.formula := by
  simp only [budgetConfig, FormulaBook.resolve, activeFormula_eq h, get?_formulas_eq h]

theorem budget_eq (item : Item) : budget item d.budgetConfig = budget item d'.budgetConfig :=
  budget_congr (formula_budgetConfig_eq h) (get?_weights_eq h) (get?_allowances_eq h) item

end SameEntries

/-! ## Texts one after the other -/

/-- The calls that load texts of known kinds. -/
def textCalls (texts : List (DefinitionKind × String)) : List Load :=
  texts.map fun t => .text t.1 t.2

/-- The entries that texts stand for. -/
def entriesOf (texts : List (DefinitionKind × String)) : List Entry :=
  texts.flatMap fun t => (entriesOf? t.1 t.2).getD []

/-- Every text can be read. -/
def Readable (texts : List (DefinitionKind × String)) : Prop :=
  ∀ t ∈ texts, (entriesOf? t.1 t.2).isSome = true

theorem readable_cons {t : DefinitionKind × String} {texts : List (DefinitionKind × String)} :
    Readable (t :: texts) ↔ (entriesOf? t.1 t.2).isSome = true ∧ Readable texts :=
  List.forall_mem_cons

theorem entriesOf_cons (t : DefinitionKind × String) (texts : List (DefinitionKind × String)) :
    entriesOf (t :: texts) = (entriesOf? t.1 t.2).getD [] ++ entriesOf texts :=
  List.flatMap_cons

theorem accepts_cons_and_loaded_iff {l : Load} {calls : List Load} :
    d.accepts (l :: calls) = true ∧ d.loaded (l :: calls) = d' ↔
      ∃ d₁ : Definitions, l.run d = d₁.accept ∧ d₁.accepts calls = true ∧ d₁.loaded calls = d' := by
  rw [accepts, Bool.and_eq_true]
  show (_ ∧ _) ∧ (l.run d).definitions.loaded calls = d' ↔ _
  cases l.run d with
  | mk d₁ error =>
    cases error with
    | none =>
      constructor
      · rintro ⟨⟨-, haccepts⟩, hloaded⟩
        exact ⟨d₁, rfl, haccepts, hloaded⟩
      · rintro ⟨d₂, heq, h⟩
        rw [accept_eq_iff.1 heq] at h
        exact ⟨⟨rfl, h.1⟩, h.2⟩
    | some e =>
      exact iff_of_false (fun h => nomatch h.1.1) fun ⟨_, heq, _⟩ => refuse_ne_accept heq

/-- Texts are accepted exactly when they can be read and the definitions take all their entries,
which are then put. -/
theorem accepts_and_loaded_iff {texts : List (DefinitionKind × String)} :
    d.accepts (textCalls texts) = true ∧ d.loaded (textCalls texts) = d' ↔
      Readable texts ∧ d.Takes (entriesOf texts) ∧ d' = d.putAll (entriesOf texts) := by
  induction texts generalizing d with
  | nil =>
    refine (and_iff_right rfl).trans (eq_comm.trans ?_)
    exact ((and_iff_right fun _ h => nomatch h).trans (and_iff_right (takes_nil d))).symm
  | cons t texts ih =>
    have hcalls : textCalls (t :: texts) = .text t.1 t.2 :: textCalls texts := rfl
    have hrun : ∀ d₁ : Definitions, (Load.text t.1 t.2).run d = d₁.accept ↔ _ :=
      fun d₁ => load_eq_accept_iff
    simp only [hcalls, accepts_cons_and_loaded_iff, hrun, ih]
    rw [readable_cons, entriesOf_cons, takes_append, putAll_append]
    cases entriesOf? t.1 t.2 with
    | none => exact iff_of_false (fun ⟨_, ⟨_, h, _⟩, _⟩ => nomatch h) fun h => nomatch h.1.1
    | some es =>
      constructor
      · rintro ⟨d₁, ⟨es', heq, htakes, rfl⟩, hread, hrest, rfl⟩
        cases heq
        exact ⟨⟨rfl, hread⟩, ⟨htakes, hrest⟩, rfl⟩
      · rintro ⟨⟨-, hread⟩, ⟨htakes, hrest⟩, rfl⟩
        exact ⟨_, ⟨es, rfl, htakes, rfl⟩, hread, hrest, rfl⟩

theorem accepts_iff {texts : List (DefinitionKind × String)} :
    d.accepts (textCalls texts) = true ↔ Readable texts ∧ d.Takes (entriesOf texts) := by
  constructor
  · intro h
    obtain ⟨hread, htakes, -⟩ := accepts_and_loaded_iff.1 ⟨h, rfl⟩
    exact ⟨hread, htakes⟩
  · rintro ⟨hread, htakes⟩
    exact (accepts_and_loaded_iff.2 ⟨hread, htakes, rfl⟩).1

theorem readable_perm {texts texts' : List (DefinitionKind × String)} (h : texts.Perm texts') :
    Readable texts ↔ Readable texts' :=
  ⟨fun hr t ht => hr t (h.mem_iff.2 ht), fun hr t ht => hr t (h.mem_iff.1 ht)⟩

/-- **The order of loading is not seen**: the texts in any other order are accepted exactly when
these are, and then the definitions differ in the order of their entries only, and every item has
the same issues and the same budget. -/
theorem loading_order_unseen {texts texts' : List (DefinitionKind × String)}
    (h : texts.Perm texts') :
    let d := loaded ∅ (textCalls texts)
    let d' := loaded ∅ (textCalls texts')
    (accepts ∅ (textCalls texts) = true ↔ accepts ∅ (textCalls texts') = true) ∧
    (accepts ∅ (textCalls texts) = true →
      d.Alike d' ∧
      (∀ item, AttributeBook.issues d.attributes item = AttributeBook.issues d'.attributes item) ∧
      ∀ item, budget item d.budgetConfig = budget item d'.budgetConfig) := by
  intro d d'
  have hentries : (entriesOf texts).Perm (entriesOf texts') := h.flatMap_right _
  constructor
  · rw [accepts_iff, accepts_iff, readable_perm h, takes_perm hentries]
  · intro haccepts
    obtain ⟨hread, htakes, hd⟩ := accepts_and_loaded_iff.1 ⟨haccepts, rfl⟩
    have hd' : d' = putAll ∅ (entriesOf texts') :=
      (accepts_and_loaded_iff.2
        ⟨(readable_perm h).1 hread, (takes_perm hentries).1 htakes, rfl⟩).2
    have hkeys : ∀ k, d.at? k = d'.at? k := by
      intro k
      rw [hd']
      exact (congrArg (at? · k) hd).trans (at?_putAll_perm hentries htakes k)
    exact ⟨alike_of_entries hkeys (grows_loaded ∅ _) (grows_loaded ∅ _), issues_eq hkeys,
      budget_eq hkeys⟩

/-- A text of each kind, and two with weights. -/
def bladeTexts : List (DefinitionKind × String) :=
  [(.formulas, "(formulas: [(name: \"sum\", expression: \"weight + max\")])"),
    (.attributes, "(attributes: [(name: \"DAMAGE\", bound_types: [Int])])"),
    (.weights, "(weights: \x7b \"DAMAGE\": 2.0 \x7d)"),
    (.weights, "(weights: \x7b \"SPEED\": 0.5 \x7d)"),
    (.allowances, "(allowances: \x7b \"RARE\": \x7b \"Sword\": 6.0 \x7d \x7d)"),
    (.activeFormula, "(active_formula: \"sum\")")]

/-- Read backwards, the texts put the formula in force before there is one, and the weights in the
other order. -/
theorem backwards_unseen :
    let d := loaded ∅ (textCalls bladeTexts)
    let d' := loaded ∅ (textCalls bladeTexts.reverse)
    let item : Item :=
      ⟨"Edge", "RARE", "Sword.IRON", [⟨.custom, "DAMAGE", [⟨.double, "0", "5"⟩], false⟩]⟩
    bladeTexts.Perm bladeTexts.reverse ∧ accepts ∅ (textCalls bladeTexts) = true ∧
    accepts ∅ (textCalls bladeTexts.reverse) = true ∧ d ≠ d' ∧ d.Alike d' ∧
    budget item d.budgetConfig = budget item d'.budgetConfig ∧
    budget item d.budgetConfig = ⟨7.0, 6.0, .over, [⟨"DAMAGE", 7.0⟩]⟩ := by
  intro d d' item
  have hperm : bladeTexts.Perm bladeTexts.reverse := (List.reverse_perm bladeTexts).symm
  have haccepts : accepts ∅ (textCalls bladeTexts) = true := by decide +kernel
  obtain ⟨hiff, halike⟩ := loading_order_unseen hperm
  obtain ⟨hentries, -, hbudget⟩ := halike haccepts
  exact ⟨hperm, haccepts, hiff.1 haccepts, by decide +kernel, hentries, hbudget item,
    by decide +kernel⟩

end Definitions

end ItemBudget
