import ItemBudget.Document.Budget
import ItemBudget.Proofs.Budget.Inputs
import ItemBudget.Proofs.Document.Stored
import ItemBudget.Proofs.Json.Reread
import ItemBudget.Proofs.Table

/-!
# Stored configurations

The text of a configuration is read as one with the same formula and the same keys in their order.
Its numbers are read back as numerals are, so a number may move by a few units in its last place
(`RereadNumber`), and a short one stays. A budget of short numbers stays with them.
-/

namespace ItemBudget

open Double
open Json (Node)

/-! ## Tables -/

section Tables

variable {α β : Type} {R : α → β → Prop} {read : Node → Option β} (toJson : α → Node)

theorem exists_entries {es : List (String × α)}
    (h : ∀ e ∈ es, ∃ y, read (toJson e.2) = some y ∧ R e.2 y) :
    ∃ fs, Document.entriesOf? read (Node.ofFields (es.map fun e => (e.1, toJson e.2))) = some fs ∧
      Table.Related R es fs := by
  have htable : Document.entriesOf? read (Node.ofFields (es.map fun e => (e.1, toJson e.2))) =
      (es.map fun e => (e.1, toJson e.2)).mapM fun f => (read f.2).map (Prod.mk f.1) := by
    show (Json.keyed? ((es.map fun e => (e.1, toJson e.2)).map fun f => (some f.1, f.2))).bind _ = _
    rw [keyed?_named, Option.bind_some]
  rw [htable]
  clear htable
  induction es with
  | nil => exact ⟨[], rfl, .nil⟩
  | cons e es ih =>
    obtain ⟨y, hy, hR⟩ := h e List.mem_cons_self
    obtain ⟨fs, hfs, hrelated⟩ := ih fun e he => h e (List.mem_cons_of_mem _ he)
    refine ⟨(e.1, y) :: fs, ?_, .cons ⟨rfl, hR⟩ hrelated⟩
    rw [List.map_cons, List.mapM_cons, hy, hfs]
    rfl

/-- A table whose values are read back is read with its keys in their order. -/
theorem exists_table (t : Table α) (h : ∀ e ∈ t.entries, ∃ y, read (toJson e.2) = some y ∧ R e.2 y) :
    ∃ u : Table β, (Document.entriesOf? read
        (Node.ofFields (t.entries.map fun e => (e.1, toJson e.2)))).map Table.ofList = some u ∧
      Table.Related R t.entries u.entries := by
  obtain ⟨fs, hfs, hrelated⟩ := exists_entries toJson h
  refine ⟨Table.ofList fs, by rw [hfs, Option.map_some], ?_⟩
  rwa [Table.entries_ofList]
  rw [hrelated.keys_eq]
  exact t.nodup

end Tables

/-! ## Numbers -/

/-- A number and what is read of its text. -/
structure RereadNumber (x y : Float) : Prop where
  finite : y.isFinite = true
  sign : 0 ≤ toRat x * toRat y
  close : |toRat y - toRat x| ≤ |toRat x| / 2 ^ 50 + 2 ^ (-1072 : ℤ)
  short : Json.Short x → y = x

theorem exists_rereadNumber {x : Float} (hx : x.isFinite = true) :
    ∃ y, Document.number? (Node.ofFloat x) = some y ∧ RereadNumber x y := by
  obtain ⟨y, hread, hfinite, hsign, hclose⟩ := Json.exists_reread hx
  refine ⟨y, hread, hfinite, hsign, hclose, fun hshort => ?_⟩
  rw [Json.reread_short hshort] at hread
  exact (Option.some_inj.1 hread).symm

/-! ## Configurations -/

namespace BudgetConfig

/-- The weights and allowances. -/
def numbers (c : BudgetConfig) : List Float :=
  c.weights.entries.map (·.2) ++ c.allowances.flatten.map (·.2.2)

/-- A configuration and what is read of its text. -/
structure Reread (c d : BudgetConfig) : Prop where
  formula : d.formula = c.formula
  weights : Table.Related RereadNumber c.weights.entries d.weights.entries
  allowances : Table.Related
    (fun t u : Table Float => Table.Related RereadNumber t.entries u.entries)
    c.allowances.entries d.allowances.entries

variable {c d : BudgetConfig}

theorem standard_weights (t : WeightTable) : t.toJson.Standard := by
  refine .ofFields fun f hf => ?_
  obtain ⟨e, -, rfl⟩ := List.mem_map.1 hf
  exact Json.standard_ofFloat e.2

theorem standard_toJson (c : BudgetConfig) : c.toJson.Standard := by
  have hallowances : (AllowanceTable.toJson c.allowances).Standard := by
    refine .ofFields fun f hf => ?_
    obtain ⟨e, -, rfl⟩ := List.mem_map.1 hf
    exact standard_weights e.2
  exact .ofFields (by simp [standard_weights, hallowances])

theorem mem_numbers_of_weight {e : String × Float} (h : e ∈ c.weights.entries) :
    e.2 ∈ c.numbers :=
  List.mem_append_left _ (List.mem_map_of_mem h)

theorem mem_numbers_of_allowance {r : String × Table Float} {e : String × Float}
    (hr : r ∈ c.allowances.entries) (he : e ∈ r.2.entries) : e.2 ∈ c.numbers := by
  refine List.mem_append_right _ (List.mem_map.2 ⟨(r.1, e), ?_, rfl⟩)
  exact List.mem_flatMap.2 ⟨r, hr, List.mem_map_of_mem he⟩

/-- Every field is written, so a configuration is read field by field. -/
theorem ofDocument?_toJson {weights : WeightTable} {allowances : AllowanceTable}
    (hweights : WeightTable.ofDocument? (WeightTable.toJson c.weights) = some weights)
    (hallowances :
      AllowanceTable.ofDocument? (AllowanceTable.toJson c.allowances) = some allowances) :
    ofDocument? c.toJson = some ⟨c.formula, weights, allowances⟩ := by
  unfold ofDocument? toJson
  rw [record?_ofFields]
  · simp [Fields.orElse, Fields.get?, List.lookup, hweights, hallowances]
  · rfl
  · simp

theorem exists_reread (hfinite : ∀ x ∈ c.numbers, x.isFinite = true) :
    ∃ d, ofDocument? c.toJson = some d ∧ Reread c d := by
  obtain ⟨weights, hweights, hw⟩ := exists_table Node.ofFloat c.weights
    fun e he => exists_rereadNumber (hfinite _ (mem_numbers_of_weight he))
  have hrow : ∀ r ∈ c.allowances.entries, ∃ u, WeightTable.ofDocument? (WeightTable.toJson r.2) =
      some u ∧ Table.Related RereadNumber r.2.entries u.entries := fun r hr =>
    exists_table Node.ofFloat r.2
      fun e he => exists_rereadNumber (hfinite _ (mem_numbers_of_allowance hr he))
  obtain ⟨allowances, hallowances, ha⟩ := exists_table
    (R := fun t u : Table Float => Table.Related RereadNumber t.entries u.entries)
    WeightTable.toJson c.allowances hrow
  exact ⟨_, ofDocument?_toJson hweights hallowances, rfl, hw, ha⟩

/-! ## What stays -/

theorem eq_of_table {t u : Table Float} (h : Table.Related RereadNumber t.entries u.entries)
    (hshort : ∀ e ∈ t.entries, Json.Short e.2) : u = t :=
  Table.eq_of_entries (h.eq fun e he _ hy => hy.short (hshort e he))

theorem getD_eq {t u : Table Float} (h : Table.Related RereadNumber t.entries u.entries)
    {key : String} (hshort : Json.Short ((t.get? key).getD 0.0)) :
    (u.get? key).getD 0.0 = (t.get? key).getD 0.0 := by
  have hvalue := h.lookup key
  unfold Table.get? at hshort ⊢
  generalize t.entries.lookup key = x at hvalue hshort ⊢
  generalize u.entries.lookup key = y at hvalue ⊢
  cases hvalue with
  | none => rfl
  | some hxy => exact hxy.short hshort

namespace Reread

/-- Short numbers make a configuration that is read back as it is. -/
theorem eq_self (h : Reread c d) (hshort : ∀ x ∈ c.numbers, Json.Short x) : d = c := by
  have hweights : d.weights = c.weights :=
    eq_of_table h.weights fun e he => hshort _ (mem_numbers_of_weight he)
  have hallowances : d.allowances = c.allowances :=
    Table.eq_of_entries (h.allowances.eq fun r hr u hu =>
      eq_of_table hu fun e he => hshort _ (mem_numbers_of_allowance hr he))
  calc d = ⟨d.formula, d.weights, d.allowances⟩ := rfl
    _ = c := by rw [h.formula, hweights, hallowances]

theorem weight_eq (h : Reread c d) {name : String}
    (hshort : Json.Short (c.weights.weight name)) :
    d.weights.weight name = c.weights.weight name :=
  getD_eq h.weights hshort

theorem allowed_eq (h : Reread c d) {rarity : String} {k : EquipClass}
    (hshort : Json.Short (AllowanceTable.allowed c.allowances rarity k)) :
    AllowanceTable.allowed d.allowances rarity k = AllowanceTable.allowed c.allowances rarity k := by
  have hrow := h.allowances.lookup rarity
  unfold AllowanceTable.allowed AllowanceTable.get? at hshort ⊢
  change Option.Rel _ (Table.get? c.allowances rarity) (Table.get? d.allowances rarity) at hrow
  generalize Table.get? c.allowances rarity = t at hrow hshort ⊢
  generalize Table.get? d.allowances rarity = u at hrow ⊢
  cases hrow with
  | none => rfl
  | some hrelated => exact getD_eq hrelated hshort

/-- A budget whose weights and allowance are short is that of the stored configuration. -/
theorem budget_eq (h : Reread c d) {i : Item}
    (hweights : ∀ v ∈ i.view, Json.Short (c.weights.weight v.name))
    (hallowance : Json.Short (AllowanceTable.allowed c.allowances i.rarity i.equipClass)) :
    budget i d = budget i c := by
  have hexpression : d.expression = c.expression := by
    rw [expression, expression, h.formula]
  exact budget_eq_of_view rfl rfl rfl (by rw [hexpression])
    (fun v hv => h.weight_eq (hweights v hv)) (h.allowed_eq hallowance)

end Reread

/-- **A stored configuration is read back** with its formula and its keys in their order, and with
numbers that are close to those stored. Short numbers are the same, and so are the configuration
that has no others and the budgets that look at no others. -/
theorem stored_config_reread (c : BudgetConfig) (hfinite : ∀ x ∈ c.numbers, x.isFinite = true) :
    ∃ d, (Json.read? (Json.compact c.toJson)).bind ofDocument? = some d ∧ Reread c d ∧
      ((∀ x ∈ c.numbers, Json.Short x) → d = c) ∧
      ∀ i : Item, (∀ a ∈ i.charged, Json.Short (c.weights.weight a.name)) →
        Json.Short (AllowanceTable.allowed c.allowances i.rarity i.equipClass) →
        budget i d = budget i c := by
  obtain ⟨d, hread, hreread⟩ := exists_reread hfinite
  refine ⟨d, ?_, hreread, hreread.eq_self, fun i hweights hallowance => ?_⟩
  · rw [Json.read?_compact c.standard_toJson, Option.bind_some, hread]
  · refine hreread.budget_eq (fun v hv => ?_) hallowance
    obtain ⟨a, ha, rfl⟩ := List.mem_map.1 hv
    exact hweights a ha

/-- A configuration of short numbers, one of them not above zero and one with a sign that no
comparison sees, is read back as it is. -/
theorem short_config_reread :
    let c := ((ofFormula "weight * max").withWeight "A" 0.1).withWeight "B" (-0.0)
      |>.withAllowance "RARE" "Sword" (-12.75)
    (∀ x ∈ c.numbers, x.isFinite = true) ∧
      (Json.read? (Json.compact c.toJson)).bind ofDocument? = some c := by
  intro c
  have hfinite : ∀ x ∈ c.numbers, x.isFinite = true := by decide +kernel
  obtain ⟨d, hread, -, hsame, -⟩ := stored_config_reread c hfinite
  have htenth : Json.Short 0.1 := ⟨false, 1, 1, by norm_num, by norm_num, by decide +kernel⟩
  have hzero : Json.Short (-0.0) := ⟨true, 0, 0, by norm_num, by norm_num, by decide +kernel⟩
  have hquarters : Json.Short (-12.75) :=
    ⟨true, 1275, 2, by norm_num, by norm_num, by decide +kernel⟩
  have hshort : ∀ x ∈ c.numbers, Json.Short x := by
    have hnumbers : c.numbers = [0.1, -0.0, -12.75] := by decide +kernel
    rw [hnumbers]
    simp [htenth, hzero, hquarters]
  exact ⟨hfinite, by rw [hread, hsame hshort]⟩

/-- The greatest odd whole number that is a double is read as the even one below it, and the budget
of an item changes with it. -/
theorem odd_weight_moves :
    let c := (ofFormula "weight * max").withWeight "A" 9007199254740991.0
    let d := (ofFormula "weight * max").withWeight "A" 9007199254740990.0
    let i : Item := ⟨"Edge", "RARE", "Sword.IRON", [⟨.custom, "A", [⟨.double, "0", "1"⟩], false⟩]⟩
    (∀ x ∈ c.numbers, x.isFinite = true) ∧
      (Json.read? (Json.compact c.toJson)).bind ofDocument? = some d ∧
      d ≠ c ∧ (budget i d).used ≠ (budget i c).used := by
  intro c d i
  have hnumber : Document.number? (Node.ofFloat 9007199254740991.0) =
      some 9007199254740990.0 := by
    have hunpack : (9007199254740991.0 : Float).toModel.unpack =
        .finite .positive (2 ^ 53 - 1) 0 (by norm_num) := rfl
    have hwritten : Json.written (2 ^ 53 - 1) 0 = ⟨90071992547409910, -1⟩ := by decide +kernel
    rw [Json.number?_ofFloat hunpack, hwritten, Json.scaled?, if_neg (by decide), Json.scaleDown,
      if_pos (by decide)]
    decide +kernel
  have hweights : WeightTable.ofDocument? (WeightTable.toJson c.weights) = some d.weights := by
    have hentries : Document.entriesOf? Document.number? (WeightTable.toJson c.weights) =
        [("A", Node.ofFloat 9007199254740991.0)].mapM
          fun e => (Document.number? e.2).map (Prod.mk e.1) := rfl
    rw [WeightTable.ofDocument?, hentries, List.mapM_cons, hnumber]
    rfl
  have hallowances :
      AllowanceTable.ofDocument? (AllowanceTable.toJson c.allowances) = some ∅ := rfl
  refine ⟨by decide +kernel, ?_, by decide +kernel, by decide +kernel⟩
  rw [Json.read?_compact c.standard_toJson, Option.bind_some]
  exact ofDocument?_toJson hweights hallowances

end BudgetConfig

end ItemBudget
