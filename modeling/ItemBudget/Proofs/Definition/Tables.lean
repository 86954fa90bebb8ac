import ItemBudget.Proofs.Definition.Order

/-!
# Tables enter whole

A text of weights or of allowances, and one with the formula in force, is checked as a whole before
any of it is added. So it either changes nothing or adds all that was read (`AddsWhole`): the new
entries come after the old ones in the order of the text, and nothing else changes
(`WeightsAdded`, `AllowancesAdded`).
-/

namespace ItemBudget

/-! ## Rows -/

namespace AllowanceTable

variable {t : AllowanceTable}

/-- The allowances of a rarity by the name of a class. -/
def row (t : AllowanceTable) (rarity : String) : Table Float := (Table.get? t rarity).getD ∅

/-- The allowances with those of one rarity set in order. -/
def setRow (t : AllowanceTable) (rarity : String) (es : List (String × Float)) : AllowanceTable :=
  es.foldl (fun t e => set t rarity e.1 e.2) t

/-- The allowances with those of several rarities set in order. -/
def setRows (t : AllowanceTable) (rows : List (String × Table Float)) : AllowanceTable :=
  rows.foldl (fun t r => setRow t r.1 r.2.entries) t

theorem setRow_cons (t : AllowanceTable) (rarity : String) (e : String × Float)
    (es : List (String × Float)) :
    setRow t rarity (e :: es) = setRow (set t rarity e.1 e.2) rarity es := rfl

theorem setRows_cons (t : AllowanceTable) (r : String × Table Float)
    (rows : List (String × Table Float)) :
    setRows t (r :: rows) = setRows (setRow t r.1 r.2.entries) rows := rfl

theorem foldl_flatten (t added : AllowanceTable) :
    (flatten added).foldl (fun t e => set t e.1 e.2.1 e.2.2) t = setRows t added.entries := by
  rw [flatten, List.foldl_flatMap]
  simp only [List.foldl_map]
  rfl

theorem get?_row (t : AllowanceTable) (rarity className : String) :
    (row t rarity).get? className = get? t rarity className := by
  unfold row get?
  cases Table.get? t rarity with
  | none => rfl
  | some r => rfl

theorem row_set (t : AllowanceTable) (rarity rarity' className : String) (x : Float) :
    row (set t rarity className x) rarity' =
      if rarity' = rarity then (row t rarity).insert className x else row t rarity' := by
  unfold row set
  rw [Table.get?_insert]
  split <;> rfl

theorem row_setRow (t : AllowanceTable) (rarity rarity' : String) (es : List (String × Float)) :
    row (setRow t rarity es) rarity' =
      if rarity' = rarity then es.foldl (fun r e => r.insert e.1 e.2) (row t rarity)
      else row t rarity' := by
  induction es generalizing t with
  | nil =>
    split
    · next h => rw [h]; rfl
    · rfl
  | cons e es ih =>
    rw [setRow_cons, ih, row_set, row_set, if_pos rfl]
    split <;> rfl

theorem row_setRows (t : AllowanceTable) {rows : List (String × Table Float)}
    (hkeys : (rows.map Prod.fst).Nodup) (rarity : String) :
    row (setRows t rows) rarity =
      ((rows.lookup rarity).getD ∅).entries.foldl (fun r e => r.insert e.1 e.2) (row t rarity) := by
  induction rows generalizing t with
  | nil => rfl
  | cons r rows ih =>
    obtain ⟨name, added⟩ := r
    obtain ⟨hkey, hkeys⟩ := List.nodup_cons.1 hkeys
    rw [setRows_cons, ih _ hkeys, row_setRow, Table.lookup_cons_ite]
    by_cases hr : rarity = name
    · -- the rarity does not come again
      have hnone : rows.lookup rarity = none :=
        (Table.get?_eq_none_iff (t := ⟨rows, hkeys⟩)).2 (hr ▸ hkey)
      rw [hnone, if_pos hr, if_pos hr, hr]
      rfl
    · rw [if_neg hr, if_neg hr]

theorem keys_setRow_of_mem {rarity : String} (h : rarity ∈ t.keys) (es : List (String × Float)) :
    (setRow t rarity es).keys = t.keys := by
  induction es generalizing t with
  | nil => rfl
  | cons e es ih =>
    have hset : (set t rarity e.1 e.2).keys = t.keys := (Table.keys_insert _ _ _).trans (if_pos h)
    rw [setRow_cons, ih (hset ▸ h), hset]

theorem keys_setRow_of_new {rarity : String} {es : List (String × Float)} (h : rarity ∉ t.keys)
    (hes : es ≠ []) : (setRow t rarity es).keys = t.keys ++ [rarity] := by
  obtain ⟨e, es, rfl⟩ := List.exists_cons_of_ne_nil hes
  have hset : (set t rarity e.1 e.2).keys = t.keys ++ [rarity] :=
    (Table.keys_insert _ _ _).trans (if_neg h)
  rw [setRow_cons, keys_setRow_of_mem (hset ▸ List.mem_append_right _ (List.mem_singleton_self _)), hset]

/-- New rarities come last, but for those without an allowance. -/
theorem keys_setRows (t : AllowanceTable) {rows : List (String × Table Float)}
    (hkeys : (rows.map Prod.fst).Nodup) :
    (setRows t rows).keys =
      t.keys ++ (rows.filter fun r => r.2.entries ≠ [] ∧ r.1 ∉ t.keys).map Prod.fst := by
  induction rows generalizing t with
  | nil => exact (List.append_nil _).symm
  | cons r rows ih =>
    obtain ⟨hkey, hkeys⟩ := List.nodup_cons.1 hkeys
    rw [setRows_cons, ih _ hkeys, List.filter_cons]
    by_cases hmem : r.1 ∈ t.keys
    · rw [keys_setRow_of_mem hmem, if_neg fun h => (of_decide_eq_true h).2 hmem]
    by_cases hempty : r.2.entries = []
    · rw [if_neg fun h => (of_decide_eq_true h).1 hempty, hempty]
      rfl
    · rw [keys_setRow_of_new hmem hempty, if_pos (decide_eq_true ⟨hempty, hmem⟩), List.map_cons,
        List.append_assoc, List.singleton_append]
      refine congrArg (fun rs => t.keys ++ r.1 :: List.map Prod.fst rs) (List.filter_congr ?_)
      intro r' hr'
      -- the other rarities are not this one
      have hne : r'.1 ≠ r.1 := fun heq => hkey (heq ▸ List.mem_map_of_mem hr')
      refine decide_eq_decide.2 (and_congr_right fun _ => not_congr ?_)
      rw [List.mem_append, List.mem_singleton, or_iff_left hne]

end AllowanceTable

namespace Definitions

variable {d d' : Definitions}

/-! ## Whole tables -/

/-- What becomes of a load that adds all that was read or nothing: it is refused without a change
when nothing was read or it does not fit, and else accepted. -/
inductive AddsWhole {α : Type} (d : Definitions) (read : Option α) (fits : α → Prop)
    (added : α → Definitions → Prop) : Loaded → Prop
  | refused (e : DefinitionError) (h : ∀ x, read = some x → ¬fits x) :
    AddsWhole d read fits added (d.refuse e)
  | accepted {x : α} {d' : Definitions} (hread : read = some x) (hfits : fits x)
      (hadded : added x d') :
    AddsWhole d read fits added d'.accept

/-- The weights are new, finite and not negative. -/
def WeightsFit (d : Definitions) (t : WeightTable) : Prop :=
  ∀ e ∈ t.entries, d.weights.get? e.1 = none ∧ e.2.isFinite = true ∧ 0.0 ≤ e.2

/-- The allowances are new and finite. -/
def AllowancesFit (d : Definitions) (t : AllowanceTable) : Prop :=
  ∀ e ∈ t.flatten, AllowanceTable.get? d.allowances e.1 e.2.1 = none ∧ e.2.2.isFinite = true

/-- The weights of a table come after those that were there. -/
structure WeightsAdded (d : Definitions) (t : WeightTable) (d' : Definitions) : Prop where
  formulas : d'.formulas = d.formulas
  attributes : d'.attributes = d.attributes
  weights : d'.weights.entries = d.weights.entries ++ t.entries
  allowances : d'.allowances = d.allowances
  activeFormula : d'.activeFormula = d.activeFormula

/-- The allowances of a table come after those that were there in their rarity, and the new rarities
after the old ones. A rarity without an allowance adds nothing. -/
structure AllowancesAdded (d : Definitions) (t : AllowanceTable) (d' : Definitions) : Prop where
  formulas : d'.formulas = d.formulas
  attributes : d'.attributes = d.attributes
  weights : d'.weights = d.weights
  rows : ∀ rarity, (d'.allowances.row rarity).entries =
    (d.allowances.row rarity).entries ++ (t.row rarity).entries
  rarities : d'.allowances.keys = d.allowances.keys ++
    (t.entries.filter fun r => r.2.entries ≠ [] ∧ r.1 ∉ d.allowances.keys).map Prod.fst
  activeFormula : d'.activeFormula = d.activeFormula

theorem addsWhole_of_puts {α : Type} {add : Definitions → α → Loaded} {entries : α → List Entry}
    {fits : α → Prop} {added : α → Definitions → Prop} (hadd : ∀ x, Puts (add · x) (entries x))
    (hfits : ∀ x, d.Takes (entries x) ↔ fits x)
    (hadded : ∀ x, fits x → added x (d.putAll (entries x))) (read : Option α) :
    AddsWhole d read fits added (addRead add d read) := by
  cases read with
  | none => exact .refused _ fun x h => nomatch h
  | some x =>
    show AddsWhole d (some x) fits added (add d x)
    rcases hadd x d with ⟨htakes, heq⟩ | ⟨hnot, e, heq⟩
    · have hx := (hfits x).1 htakes
      dsimp only at heq
      rw [heq]
      exact .accepted rfl hx (hadded x hx)
    · dsimp only at heq
      rw [heq]
      refine .refused e fun y hy => ?_
      obtain rfl := Option.some.inj hy
      exact fun hx => hnot ((hfits x).2 hx)

theorem takes_weights_iff {t : WeightTable} :
    d.Takes (t.entries.map fun w => .weight w.1 w.2) ↔ d.WeightsFit t := by
  constructor
  · intro h e he
    have hmem := List.mem_map_of_mem (f := fun w => Entry.weight w.1 w.2) he
    exact ⟨Option.map_eq_none_iff.1 (h.free _ hmem), h.valid _ hmem⟩
  · intro h
    exact ⟨List.forall_mem_map.2 fun e he => (h e he).2,
      List.forall_mem_map.2 fun e he => Option.map_eq_none_iff.2 (h e he).1, nodup_weight_keys t⟩

theorem takes_allowances_iff {t : AllowanceTable} :
    d.Takes (t.flatten.map fun a => .allowance a.1 a.2.1 a.2.2) ↔ d.AllowancesFit t := by
  constructor
  · intro h e he
    have hmem := List.mem_map_of_mem (f := fun a => Entry.allowance a.1 a.2.1 a.2.2) he
    exact ⟨Option.map_eq_none_iff.1 (h.free _ hmem), h.valid _ hmem⟩
  · intro h
    exact ⟨List.forall_mem_map.2 fun e he => (h e he).2,
      List.forall_mem_map.2 fun e he => Option.map_eq_none_iff.2 (h e he).1,
      nodup_allowance_keys t⟩

theorem weightsAdded_of_fit {t : WeightTable} (h : d.WeightsFit t) :
    d.WeightsAdded t (d.putAll (t.entries.map fun w => .weight w.1 w.2)) := by
  rw [putAll_weights]
  exact ⟨rfl, rfl, Table.entries_foldl_insert t.nodup fun e he => (h e he).1, rfl, rfl⟩

theorem allowancesAdded_of_fit {t : AllowanceTable} (h : d.AllowancesFit t) :
    d.AllowancesAdded t (d.putAll (t.flatten.map fun a => .allowance a.1 a.2.1 a.2.2)) := by
  rw [putAll_allowances, AllowanceTable.foldl_flatten]
  refine ⟨rfl, rfl, rfl, fun rarity => ?_, AllowanceTable.keys_setRows _ t.nodup, rfl⟩
  show (AllowanceTable.row (AllowanceTable.setRows d.allowances t.entries) rarity).entries = _
  rw [AllowanceTable.row_setRows _ t.nodup]
  refine Table.entries_foldl_insert (Table.nodup _) fun e he => ?_
  have hmem : (rarity, e.1, e.2) ∈ t.flatten := by
    rw [AllowanceTable.mem_flatten_iff, ← AllowanceTable.get?_row]
    exact Table.mem_entries_iff.1 he
  rw [AllowanceTable.get?_row]
  exact (h _ hmem).1

/-- **Tables are loaded whole or not at all.** Whatever the definitions and the text are, a text of
weights or of allowances, or one with the formula in force, is refused without a change or adds
exactly what was read: it adds it when it can be read and all of it fits. -/
theorem tables_load_whole (d : Definitions) (text : String) :
    AddsWhole d (weightsOfText? text) d.WeightsFit d.WeightsAdded (d.load .weights text) ∧
    AddsWhole d (allowancesOfText? text) d.AllowancesFit d.AllowancesAdded
      (d.load .allowances text) ∧
    AddsWhole d (activeFormulaOfText? text) (fun _ => d.activeFormula = none)
      (fun formula d' => d' = { d with activeFormula := some formula })
      (d.load .activeFormula text) := by
  refine ⟨?_, ?_, ?_⟩
  · exact addsWhole_of_puts puts_addWeights (fun _ => takes_weights_iff)
      (fun _ => weightsAdded_of_fit) _
  · exact addsWhole_of_puts puts_addAllowances (fun _ => takes_allowances_iff)
      (fun _ => allowancesAdded_of_fit) _
  · have hfits : ∀ formula, d.Takes [.active formula] ↔ d.activeFormula = none := fun formula =>
      takes_singleton.trans ((and_iff_right trivial).trans Option.map_eq_none_iff)
    refine addsWhole_of_puts puts_activate hfits ?_ _
    exact fun _ _ => rfl

end Definitions

end ItemBudget
