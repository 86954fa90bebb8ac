import ItemBudget.Proofs.Definition.Entries

/-!
# Additions

What each addition to definitions does is said once, by `Puts`: its entries are put when the
definitions take them all, and else it is refused and changes nothing. A table is one addition. It
is checked as a whole before it enters, and as its keys are distinct every entry is still new when
its turn comes.
-/

namespace ItemBudget

theorem Table.map_get?_eq_none_iff {α β : Type} {t : Table α} {key : String} {f : α → β} :
    (t.get? key).map f = none ↔ ¬ t.contains key = true := by
  rw [Option.map_eq_none_iff, contains, Option.not_isSome_iff_eq_none]

/-- A rarity and a class name have at most one allowance. -/
theorem AllowanceTable.nodup_flatten (t : AllowanceTable) :
    ((flatten t).map fun e => (e.1, e.2.1)).Nodup := by
  rw [flatten, List.map_flatMap, List.nodup_flatMap]
  constructor
  · intro row _
    have hrow := row.2.nodup.map fun c c' (h : (row.1, c) = (row.1, c')) => congrArg Prod.snd h
    rw [List.map_map] at hrow ⊢
    exact hrow
  · refine (List.pairwise_map.1 t.nodup).imp fun hne => ?_
    intro e he he'
    simp only [List.map_map] at he he'
    obtain ⟨x, -, rfl⟩ := List.mem_map.1 he
    obtain ⟨y, -, hxy⟩ := List.mem_map.1 he'
    exact hne (congrArg Prod.fst hxy).symm

namespace Definitions

variable {d d' : Definitions} {es : List Entry}

/-- An addition of some entries as a whole. -/
def Puts (f : Definitions → Loaded) (es : List Entry) : Prop :=
  ∀ d, (d.Takes es ∧ f d = (d.putAll es).accept) ∨ (¬ d.Takes es ∧ ∃ e, f d = d.refuse e)

theorem refuse_ne_accept {e : DefinitionError} : d.refuse e ≠ d'.accept :=
  fun h => nomatch congrArg Loaded.error h

theorem accept_eq_iff : d.accept = d'.accept ↔ d' = d :=
  ⟨fun h => (congrArg Loaded.definitions h).symm, fun h => h ▸ rfl⟩

theorem Puts.eq_accept_iff {f : Definitions → Loaded} (h : Puts f es) :
    f d = d'.accept ↔ d.Takes es ∧ d' = d.putAll es := by
  rcases h d with ⟨htakes, heq⟩ | ⟨hnot, e, heq⟩
  · rw [heq, accept_eq_iff, and_iff_right htakes]
  · rw [heq]
    exact iff_of_false refuse_ne_accept fun h => hnot h.1

/-! ## One entry -/

theorem puts_addFormula (f : NamedFormula) : Puts (addFormula · f) [.formula f] := by
  intro d
  rw [takes_singleton]
  simp only [addFormula, FormulaBook.add]
  by_cases hc : Table.contains d.formulas f.name = true
  · rw [if_pos hc]
    exact .inr ⟨fun h => Table.map_get?_eq_none_iff.1 h.2 hc, _, rfl⟩
  · rw [if_neg hc]
    cases hv : Formula.validate f.expression with
    | error fault => exact .inr ⟨fun h => (nomatch hv.symm.trans h.1), _, rfl⟩
    | ok u => exact .inl ⟨⟨hv, Table.map_get?_eq_none_iff.2 hc⟩, rfl⟩

theorem puts_addAttribute (a : AttributeDefinition) :
    Puts (addAttribute · a) [.itemAttribute a] := by
  intro d
  rw [takes_singleton]
  simp only [addAttribute, AttributeBook.add]
  by_cases hc : Table.contains d.attributes a.name = true
  · rw [if_pos hc]
    exact .inr ⟨fun h => Table.map_get?_eq_none_iff.1 h.2 hc, _, rfl⟩
  · rw [if_neg hc]
    exact .inl ⟨⟨trivial, Table.map_get?_eq_none_iff.2 hc⟩, rfl⟩

theorem puts_activate (formula : String) : Puts (activate · formula) [.active formula] := by
  intro d
  rw [takes_singleton]
  simp only [activate, Entry.key, at?]
  cases d.activeFormula with
  | some _ => exact .inr ⟨fun h => Option.some_ne_none _ h.2, _, rfl⟩
  | none => exact .inl ⟨⟨trivial, rfl⟩, rfl⟩

/-! ## Tables -/

section Checked

variable {α : Type} {entry : α → Entry} {check : Definitions → α → Option DefinitionError}
  (hcheck : ∀ d x, check d x = none ↔ (entry x).Valid ∧ d.at? (entry x).key = none)
  {xs : List α} (hkeys : ((xs.map entry).map Entry.key).Nodup)

include hcheck hkeys

theorem findSome?_eq_none_iff_takes :
    xs.findSome? (check d) = none ↔ d.Takes (xs.map entry) := by
  rw [List.findSome?_eq_none_iff]
  constructor
  · intro h
    exact ⟨List.forall_mem_map.2 fun x hx => ((hcheck d x).1 (h x hx)).1,
      List.forall_mem_map.2 fun x hx => ((hcheck d x).1 (h x hx)).2, hkeys⟩
  · intro h x hx
    have hmem := List.mem_map_of_mem (f := entry) hx
    exact (hcheck d x).2 ⟨h.valid _ hmem, h.free _ hmem⟩

theorem puts_checked {f : Definitions → Loaded}
    (hf : ∀ d, f d = match xs.findSome? (check d) with
      | some e => d.refuse e
      | none => (d.putAll (xs.map entry)).accept) :
    Puts f (xs.map entry) := by
  intro d
  have hpass := findSome?_eq_none_iff_takes (d := d) hcheck hkeys
  rw [hf]
  cases h : xs.findSome? (check d) with
  | some e => exact .inr ⟨fun ht => (nomatch h.symm.trans (hpass.2 ht)), e, rfl⟩
  | none => exact .inl ⟨hpass.1 h, rfl⟩

end Checked

theorem weightError?_eq_none {name : String} {x : Float} :
    d.weightError? name x = none ↔
      (Entry.weight name x).Valid ∧ d.at? (Entry.weight name x).key = none := by
  unfold weightError?
  by_cases hc : Table.contains d.weights name = true
  · rw [if_pos hc]
    exact iff_of_false (Option.some_ne_none _) fun h => Table.map_get?_eq_none_iff.1 h.2 hc
  · rw [if_neg hc]
    by_cases hx : (x.isFinite && decide (0.0 ≤ x)) = true
    · rw [if_pos hx]
      rw [Bool.and_eq_true, decide_eq_true_eq] at hx
      exact iff_of_true rfl ⟨hx, Table.map_get?_eq_none_iff.2 hc⟩
    · rw [if_neg hx]
      rw [Bool.and_eq_true, decide_eq_true_eq] at hx
      exact iff_of_false (Option.some_ne_none _) fun h => hx h.1

theorem allowanceError?_eq_none {rarity className : String} {x : Float} :
    d.allowanceError? rarity className x = none ↔
      (Entry.allowance rarity className x).Valid ∧
        d.at? (Entry.allowance rarity className x).key = none := by
  simp only [allowanceError?, Entry.key, at?]
  cases AllowanceTable.get? d.allowances rarity className with
  | some _ => exact iff_of_false (Option.some_ne_none _) fun h => Option.some_ne_none _ h.2
  | none =>
    rw [Option.isSome_none, if_neg Bool.false_ne_true]
    by_cases hx : x.isFinite = true
    · rw [if_pos hx]
      exact iff_of_true rfl ⟨hx, rfl⟩
    · rw [if_neg hx]
      exact iff_of_false (Option.some_ne_none _) fun h => hx h.1

theorem putAll_weights (d : Definitions) (ws : List (String × Float)) :
    d.putAll (ws.map fun w => .weight w.1 w.2)
      = { d with weights := ws.foldl (fun t w => t.insert w.1 w.2) d.weights } := by
  induction ws generalizing d with
  | nil => rfl
  | cons w ws ih => exact ih _

theorem putAll_allowances (d : Definitions) (as : List (String × String × Float)) :
    d.putAll (as.map fun a => .allowance a.1 a.2.1 a.2.2) =
      { d with
        allowances := as.foldl (fun t a => AllowanceTable.set t a.1 a.2.1 a.2.2) d.allowances } := by
  induction as generalizing d with
  | nil => rfl
  | cons a as ih => exact ih _

/-- The entries of a table stand under different keys. -/
theorem nodup_weight_keys (t : WeightTable) :
    ((t.entries.map fun w => Entry.weight w.1 w.2).map Entry.key).Nodup := by
  have hkeys := t.nodup.map fun n n' (h : Entry.Key.weight n = .weight n') =>
    Entry.Key.weight.inj h
  rw [List.map_map] at hkeys ⊢
  exact hkeys

theorem nodup_allowance_keys (t : AllowanceTable) :
    (((AllowanceTable.flatten t).map fun a => Entry.allowance a.1 a.2.1 a.2.2).map
      Entry.key).Nodup := by
  have hinj : Function.Injective fun p : String × String => Entry.Key.allowance p.1 p.2 :=
    fun p p' h => Prod.ext (Entry.Key.allowance.inj h).1 (Entry.Key.allowance.inj h).2
  have hkeys := (AllowanceTable.nodup_flatten t).map hinj
  rw [List.map_map] at hkeys ⊢
  exact hkeys

theorem puts_addWeights (t : WeightTable) :
    Puts (addWeights · t) (t.entries.map fun w => .weight w.1 w.2) := by
  have hcheck : ∀ (d : Definitions) (w : String × Float), d.weightError? w.1 w.2 = none ↔ _ :=
    fun _ _ => weightError?_eq_none
  refine puts_checked hcheck (nodup_weight_keys t) fun d => ?_
  rw [putAll_weights]
  rfl

theorem puts_addAllowances (t : AllowanceTable) :
    Puts (addAllowances · t)
      ((AllowanceTable.flatten t).map fun a => .allowance a.1 a.2.1 a.2.2) := by
  have hcheck : ∀ (d : Definitions) (a : String × String × Float),
      d.allowanceError? a.1 a.2.1 a.2.2 = none ↔ _ := fun _ _ => allowanceError?_eq_none
  refine puts_checked hcheck (nodup_allowance_keys t) fun d => ?_
  rw [putAll_allowances]
  rfl

end Definitions

end ItemBudget
