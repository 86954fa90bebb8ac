import ItemBudget.Proofs.Definition.Tables

/-!
# Definitions in two texts

The definitions of a text can be given in two texts, its first entries and then the others. `Splits`
says that this makes no difference. A list of formulas or attributes splits anywhere. A table does
not where it writes a key again: the text with all the entries keeps the last value of the key, and
of the two texts the second one is refused. `splits_iff_takes` reduces the question to the entries
that the three texts stand for.
-/

namespace ItemBudget

theorem Document.entriesOf?_map {ν α β : Type} [Document ν] (f : α → β) (read : ν → Option α)
    (n : ν) :
    entriesOf? (fun n => (read n).map f) n =
      (entriesOf? read n).map (·.map fun e => (e.1, f e.2)) := by
  unfold entriesOf?
  cases Document.table? n with
  | none => rfl
  | some es =>
    simp only [Option.bind_eq_bind, Option.bind_some]
    induction es with
    | nil => rfl
    | cons e es ih =>
      rw [List.mapM_cons, List.mapM_cons, ih]
      cases read e.2 with
      | none => rfl
      | some x => cases List.mapM (fun e => (read e.2).map (Prod.mk e.1)) es <;> rfl

namespace Definitions

variable {d d' : Definitions} {kind : DefinitionKind} {whole first second : String}

/-! ## Tables with all that is written -/

theorem document?_only?_map {α β : Type} (record key : String) (f : α → β)
    (read : Ron.Part → Option α) (text : String) :
    document? (only? record key fun p => (read p).map f) text =
      (document? (only? record key read) text).map f := by
  unfold document? only? Fields.required
  simp only [Option.bind_eq_bind, Option.map_bind, Function.comp_def]

/-- The weights of a definition text in order, with repetitions. -/
def weightEntriesOfText? : String → Option (List (String × Float)) :=
  document? (only? "WeightFile" "weights" (Document.entriesOf? Document.number?))

/-- The allowances of a definition text in order, with repetitions. -/
def allowanceEntriesOfText? : String → Option (List (String × List (String × Float))) :=
  document? (only? "AllowanceFile" "allowances"
    (Document.entriesOf? (Document.entriesOf? Document.number?)))

/-- The table of allowances with repetitions. -/
def allowanceTable (rows : List (String × List (String × Float))) : AllowanceTable :=
  Table.ofList (rows.map fun r => (r.1, Table.ofList r.2))

theorem weightsOfText?_eq (text : String) :
    weightsOfText? text = (weightEntriesOfText? text).map Table.ofList :=
  document?_only?_map _ _ _ _ _

theorem allowancesOfText?_eq (text : String) :
    allowancesOfText? text = (allowanceEntriesOfText? text).map allowanceTable := by
  have hread : AllowanceTable.ofDocument? (ν := Ron.Part) = fun p =>
      (Document.entriesOf? (Document.entriesOf? Document.number?) p).map allowanceTable := by
    funext p
    show (Document.entriesOf? (fun p => (Document.entriesOf? Document.number? p).map _) p).map _ = _
    rw [Document.entriesOf?_map, Option.map_map]
    rfl
  unfold allowancesOfText?
  rw [hread]
  exact document?_only?_map _ _ _ _ _

/-! ## Splitting -/

/-- Definitions with the same entry under every key. They can differ in the order of the entries. -/
def SameEntries (d d' : Definitions) : Prop := ∀ k, d.at? k = d'.at? k

/-- To load two texts one after the other is as good as to load the whole one: one succeeds when the
other does, and the definitions are then the same. -/
structure Splits (Same : Definitions → Definitions → Prop) (d : Definitions)
    (kind : DefinitionKind) (whole first second : String) : Prop where
  parts : ∀ {d' : Definitions}, d.load kind whole = d'.accept →
    ∃ d₁ d₂ : Definitions, d.load kind first = d₁.accept ∧ d₁.load kind second = d₂.accept ∧ Same d' d₂
  whole : ∀ {d₁ d₂ : Definitions}, d.load kind first = d₁.accept → d₁.load kind second = d₂.accept →
    ∃ d' : Definitions, d.load kind whole = d'.accept ∧ Same d' d₂

/-- A reader reads a list from a text, its first elements from another and the rest from a third. -/
structure Parts {α : Type} (read : String → Option (List α)) (whole first second : String)
    (as bs : List α) : Prop where
  whole : read whole = some (as ++ bs)
  first : read first = some as
  second : read second = some bs

theorem Takes.of_subset {es fs : List Entry} (h : d.Takes fs) (hsub : es ⊆ fs)
    (hkeys : (es.map Entry.key).Nodup) : d.Takes es :=
  ⟨fun e he => h.valid e (hsub he), fun e he => h.free e (hsub he), hkeys⟩

section Entries

variable {Same : Definitions → Definitions → Prop} {es as bs : List Entry}

theorem load_load_eq_accept_iff (hfirst : entriesOf? kind first = some as)
    (hsecond : entriesOf? kind second = some bs) :
    (∃ d₁ : Definitions, d.load kind first = d₁.accept ∧ d₁.load kind second = d'.accept) ↔
      d.Takes (as ++ bs) ∧ d' = d.putAll (as ++ bs) := by
  simp only [load_eq_accept_iff, hfirst, hsecond, Option.some_inj, exists_eq_left', takes_append,
    putAll_append]
  constructor
  · rintro ⟨d₁, ⟨ha, rfl⟩, hb, rfl⟩
    exact ⟨⟨ha, hb⟩, rfl⟩
  · rintro ⟨⟨ha, hb⟩, rfl⟩
    exact ⟨_, ⟨ha, rfl⟩, hb, rfl⟩

/-- The whole text stands for some of the entries of the two others, each key once. So it is
accepted whenever they are, and they split it when they are accepted whenever it is. -/
theorem splits_iff_takes (hwhole : entriesOf? kind whole = some es)
    (hfirst : entriesOf? kind first = some as) (hsecond : entriesOf? kind second = some bs)
    (hsub : es ⊆ as ++ bs) (hkeys : d.Takes (as ++ bs) → (es.map Entry.key).Nodup) :
    d.Splits Same kind whole first second ↔
      (d.Takes es → d.Takes (as ++ bs) ∧ Same (d.putAll es) (d.putAll (as ++ bs))) := by
  have hload : ∀ {d' : Definitions}, d.load kind whole = d'.accept ↔ d.Takes es ∧ d' = d.putAll es := by
    simp only [load_eq_accept_iff, hwhole, Option.some_inj, exists_eq_left', implies_true]
  have hloads : ∀ {d' : Definitions},
      (∃ d₁ : Definitions, d.load kind first = d₁.accept ∧ d₁.load kind second = d'.accept) ↔
        d.Takes (as ++ bs) ∧ d' = d.putAll (as ++ bs) := load_load_eq_accept_iff hfirst hsecond
  constructor
  · intro h ht
    obtain ⟨d₁, d₂, h₁, h₂, hsame⟩ := h.parts (hload.2 ⟨ht, rfl⟩)
    obtain ⟨hts, rfl⟩ := hloads.1 ⟨d₁, h₁, h₂⟩
    exact ⟨hts, hsame⟩
  · intro h
    constructor
    · intro d' hd'
      obtain ⟨ht, rfl⟩ := hload.1 hd'
      obtain ⟨hts, hsame⟩ := h ht
      obtain ⟨d₁, h₁, h₂⟩ := hloads.2 ⟨hts, rfl⟩
      exact ⟨d₁, _, h₁, h₂, hsame⟩
    · intro d₁ d₂ h₁ h₂
      obtain ⟨hts, rfl⟩ := hloads.1 ⟨d₁, h₁, h₂⟩
      have ht := hts.of_subset hsub (hkeys hts)
      exact ⟨_, hload.2 ⟨ht, rfl⟩, (h ht).2⟩

theorem splits_of_append (hwhole : entriesOf? kind whole = some (as ++ bs))
    (hfirst : entriesOf? kind first = some as) (hsecond : entriesOf? kind second = some bs) :
    d.Splits Eq kind whole first second := by
  rw [splits_iff_takes hwhole hfirst hsecond (List.Subset.refl _) fun h => h.distinct]
  intro h
  exact ⟨h, rfl⟩

end Entries

/-! ## Lists -/

theorem splits_formulas {as bs : List NamedFormula}
    (h : Parts formulasOfText? whole first second as bs) :
    d.Splits Eq .formulas whole first second := by
  refine splits_of_append
    (?_ : entriesOf? .formulas whole = some (as.map .formula ++ bs.map .formula)) ?_ ?_
  · simp [entriesOf?, h.whole]
  · simp [entriesOf?, h.first]
  · simp [entriesOf?, h.second]

theorem splits_attributes {as bs : List AttributeDefinition}
    (h : Parts attributesOfText? whole first second as bs) :
    d.Splits Eq .attributes whole first second := by
  refine splits_of_append
    (?_ : entriesOf? .attributes whole = some (as.map .itemAttribute ++ bs.map .itemAttribute)) ?_ ?_
  · simp [entriesOf?, h.whole]
  · simp [entriesOf?, h.first]
  · simp [entriesOf?, h.second]

/-! ## Weights -/

/-- The entries of the weights of a table. -/
def weightEntries (t : WeightTable) : List Entry := t.entries.map fun w => .weight w.1 w.2

theorem mem_weightEntries {t : WeightTable} {e : Entry} :
    e ∈ weightEntries t ↔ ∃ name x, t.get? name = some x ∧ e = .weight name x := by
  unfold weightEntries
  rw [List.mem_map]
  constructor
  · rintro ⟨w, hw, rfl⟩
    exact ⟨w.1, w.2, Table.mem_entries_iff.1 hw, rfl⟩
  · rintro ⟨name, x, hx, rfl⟩
    exact ⟨(name, x), Table.mem_entries_iff.2 hx, rfl⟩

theorem keys_weightEntries (t : WeightTable) :
    (weightEntries t).map Entry.key = t.keys.map .weight := by
  simp [weightEntries, Table.keys, Entry.key]

theorem entriesOf?_weights {text : String} {es : List (String × Float)}
    (h : weightEntriesOfText? text = some es) :
    entriesOf? .weights text = some (weightEntries (Table.ofList es)) := by
  simp [entriesOf?, weightsOfText?_eq, h, weightEntries]

section Weights

variable {as bs : List (String × Float)}

theorem weightEntries_append_subset :
    weightEntries (Table.ofList (as ++ bs)) ⊆
      weightEntries (Table.ofList as) ++ weightEntries (Table.ofList bs) := by
  intro e he
  obtain ⟨name, x, hx, rfl⟩ := mem_weightEntries.1 he
  rw [Table.get?_ofList_append, Option.or_eq_some_iff] at hx
  rw [List.mem_append]
  rcases hx with hb | ⟨-, ha⟩
  · exact .inr (mem_weightEntries.2 ⟨name, x, hb, rfl⟩)
  · exact .inl (mem_weightEntries.2 ⟨name, x, ha, rfl⟩)

/-- Two texts of weights that are both accepted have no name in common. -/
theorem new_of_takes_weights
    (h : d.Takes (weightEntries (Table.ofList as) ++ weightEntries (Table.ofList bs))) :
    ∀ e ∈ bs, e.1 ∉ as.map Prod.fst := by
  intro e he hmem
  have hdistinct := h.distinct
  rw [List.map_append, keys_weightEntries, keys_weightEntries] at hdistinct
  exact List.disjoint_of_nodup_append hdistinct
    (List.mem_map_of_mem (Table.mem_keys_ofList.2 hmem))
    (List.mem_map_of_mem (Table.mem_keys_ofList.2 (List.mem_map_of_mem he)))

theorem splits_weights_iff (h : Parts weightEntriesOfText? whole first second as bs) :
    d.Splits Eq .weights whole first second ↔
      (∀ e ∈ bs, e.1 ∉ as.map Prod.fst) ∨ ¬d.WeightsFit (Table.ofList (as ++ bs)) := by
  have hfit : d.Takes (weightEntries (Table.ofList (as ++ bs))) ↔ _ := takes_weights_iff
  rw [splits_iff_takes (entriesOf?_weights h.whole) (entriesOf?_weights h.first)
    (entriesOf?_weights h.second) weightEntries_append_subset fun _ => nodup_weight_keys _,
    ← hfit, or_comm, ← imp_iff_not_or]
  refine imp_congr_right fun htakes => ⟨fun hs => new_of_takes_weights hs.1, fun hnew => ?_⟩
  have happend : weightEntries (Table.ofList (as ++ bs)) =
      weightEntries (Table.ofList as) ++ weightEntries (Table.ofList bs) := by
    unfold weightEntries
    rw [Table.entries_ofList_append hnew, List.map_append]
  rw [← happend]
  exact ⟨htakes, rfl⟩

end Weights

/-! ## Allowances -/

/-- The entries of the allowances of a table. -/
def allowanceEntries (t : AllowanceTable) : List Entry :=
  t.flatten.map fun a => .allowance a.1 a.2.1 a.2.2

theorem mem_allowanceEntries {t : AllowanceTable} {e : Entry} :
    e ∈ allowanceEntries t ↔ ∃ rarity className x,
      AllowanceTable.get? t rarity className = some x ∧ e = .allowance rarity className x := by
  unfold allowanceEntries
  rw [List.mem_map]
  constructor
  · rintro ⟨a, ha, rfl⟩
    exact ⟨a.1, a.2.1, a.2.2, AllowanceTable.mem_flatten_iff.1 ha, rfl⟩
  · rintro ⟨rarity, className, x, hx, rfl⟩
    exact ⟨(rarity, className, x), AllowanceTable.mem_flatten_iff.2 hx, rfl⟩

theorem entriesOf?_allowances {text : String} {rows : List (String × List (String × Float))}
    (h : allowanceEntriesOfText? text = some rows) :
    entriesOf? .allowances text = some (allowanceEntries (allowanceTable rows)) := by
  simp [entriesOf?, allowancesOfText?_eq, h, allowanceEntries]

theorem mem_keys_allowanceTable {rows : List (String × List (String × Float))} {rarity : String} :
    rarity ∈ (allowanceTable rows).keys ↔ rarity ∈ rows.map Prod.fst := by
  unfold allowanceTable
  rw [Table.mem_keys_ofList, List.map_map]
  rfl

section Allowances

variable {as bs : List (String × List (String × Float))} {rarity className : String} {x : Float}

theorem get?_allowanceTable_append (as bs : List (String × List (String × Float)))
    (rarity : String) :
    Table.get? (allowanceTable (as ++ bs)) rarity =
      (Table.get? (allowanceTable bs) rarity).or (Table.get? (allowanceTable as) rarity) := by
  unfold allowanceTable
  rw [List.map_append, Table.get?_ofList_append]

/-- A rarity of the second list has there all that it has. -/
theorem get?_of_mem (h : rarity ∈ bs.map Prod.fst) (className : String) :
    AllowanceTable.get? (allowanceTable (as ++ bs)) rarity className =
      AllowanceTable.get? (allowanceTable bs) rarity className := by
  obtain ⟨row, hrow⟩ := Table.mem_keys_iff.1 (mem_keys_allowanceTable.2 h)
  unfold AllowanceTable.get?
  rw [get?_allowanceTable_append, hrow, Option.some_or]

theorem get?_of_notMem (h : rarity ∉ bs.map Prod.fst) (className : String) :
    AllowanceTable.get? (allowanceTable (as ++ bs)) rarity className =
      AllowanceTable.get? (allowanceTable as) rarity className := by
  have hnone := Table.get?_eq_none_iff.2 fun hmem => h (mem_keys_allowanceTable.1 hmem)
  unfold AllowanceTable.get?
  rw [get?_allowanceTable_append, hnone, Option.none_or]

theorem get?_of_empty (hempty : ∀ r ∈ bs, (allowanceTable as).row r.1 = ∅)
    (hx : AllowanceTable.get? (allowanceTable as) rarity className = some x) :
    rarity ∉ bs.map Prod.fst := by
  intro hmem
  obtain ⟨r, hr, rfl⟩ := List.mem_map.1 hmem
  rw [← AllowanceTable.get?_row, hempty r hr] at hx
  cases hx

theorem rarity_mem_of_get? (hx : AllowanceTable.get? (allowanceTable bs) rarity className = some x) :
    rarity ∈ bs.map Prod.fst := by
  obtain ⟨row, hrow, -⟩ := Option.bind_eq_some_iff.1 hx
  exact mem_keys_allowanceTable.1 (Table.mem_keys_iff.2 ⟨row, hrow⟩)

theorem allowanceEntries_append_subset :
    allowanceEntries (allowanceTable (as ++ bs)) ⊆
      allowanceEntries (allowanceTable as) ++ allowanceEntries (allowanceTable bs) := by
  intro e he
  obtain ⟨rarity, className, x, hx, rfl⟩ := mem_allowanceEntries.1 he
  rw [List.mem_append, mem_allowanceEntries, mem_allowanceEntries]
  by_cases hmem : rarity ∈ bs.map Prod.fst
  · rw [get?_of_mem hmem] at hx
    exact .inr ⟨rarity, className, x, hx, rfl⟩
  · rw [get?_of_notMem hmem] at hx
    exact .inl ⟨rarity, className, x, hx, rfl⟩

/-- Where the rarities that come again had no allowance, no entry is lost. -/
theorem perm_allowanceEntries_append (hempty : ∀ r ∈ bs, (allowanceTable as).row r.1 = ∅) :
    (allowanceEntries (allowanceTable (as ++ bs))).Perm
      (allowanceEntries (allowanceTable as) ++ allowanceEntries (allowanceTable bs)) := by
  have hnodup : ∀ rows, (allowanceEntries (allowanceTable rows)).Nodup := fun rows =>
    (nodup_allowance_keys (allowanceTable rows)).of_map
  have hdisjoint : (allowanceEntries (allowanceTable as)).Disjoint
      (allowanceEntries (allowanceTable bs)) := by
    intro e ha hb
    obtain ⟨rarity, className, x, hx, rfl⟩ := mem_allowanceEntries.1 ha
    obtain ⟨_, _, _, hy, heq⟩ := mem_allowanceEntries.1 hb
    cases heq
    exact get?_of_empty hempty hx (rarity_mem_of_get? hy)
  rw [List.perm_ext_iff_of_nodup (hnodup _) ((hnodup as).append (hnodup bs) hdisjoint)]
  refine fun e => ⟨fun he => allowanceEntries_append_subset he, fun he => ?_⟩
  rw [List.mem_append, mem_allowanceEntries, mem_allowanceEntries] at he
  rw [mem_allowanceEntries]
  rcases he with ⟨rarity, className, x, hx, rfl⟩ | ⟨rarity, className, x, hx, rfl⟩
  · exact ⟨rarity, className, x, (get?_of_notMem (get?_of_empty hempty hx) _).trans hx, rfl⟩
  · exact ⟨rarity, className, x, (get?_of_mem (rarity_mem_of_get? hx) _).trans hx, rfl⟩

/-- A rarity that comes again had no allowance, if all that the two texts put is put by the whole. -/
theorem row_eq_empty_of_same
    (ht : d.Takes (allowanceEntries (allowanceTable (as ++ bs))))
    (hts : d.Takes (allowanceEntries (allowanceTable as) ++ allowanceEntries (allowanceTable bs)))
    (hsame : SameEntries (d.putAll (allowanceEntries (allowanceTable (as ++ bs))))
      (d.putAll (allowanceEntries (allowanceTable as) ++ allowanceEntries (allowanceTable bs)))) :
    ∀ r ∈ bs, (allowanceTable as).row r.1 = ∅ := by
  intro r hr
  refine (Table.eq_empty_or_exists _).resolve_right ?_
  rintro ⟨className, x, hx⟩
  rw [AllowanceTable.get?_row] at hx
  have ha : Entry.allowance r.1 className x ∈ allowanceEntries (allowanceTable as) :=
    mem_allowanceEntries.2 ⟨_, _, x, hx, rfl⟩
  have hmem := List.mem_append_left (allowanceEntries (allowanceTable bs)) ha
  have hput := (at?_putAll hts).2 (.inr ⟨hmem, rfl⟩)
  rw [← hsame, at?_putAll ht, hts.free _ hmem] at hput
  obtain ⟨hwhole, -⟩ := hput.resolve_left (nomatch ·)
  -- the entry comes from the second list, where the rarity stands
  obtain ⟨_, _, _, hy, heq⟩ := mem_allowanceEntries.1 hwhole
  cases heq
  rw [get?_of_mem (List.mem_map_of_mem hr)] at hy
  have hb := mem_allowanceEntries.2 ⟨r.1, className, x, hy, rfl⟩
  have hdistinct := hts.distinct
  rw [List.map_append] at hdistinct
  exact List.disjoint_of_nodup_append hdistinct (List.mem_map_of_mem ha) (List.mem_map_of_mem hb)

theorem splits_allowances_iff (h : Parts allowanceEntriesOfText? whole first second as bs) :
    d.Splits SameEntries .allowances whole first second ↔
      (∀ r ∈ bs, (allowanceTable as).row r.1 = ∅) ∨
        ¬d.AllowancesFit (allowanceTable (as ++ bs)) := by
  have hfit : d.Takes (allowanceEntries (allowanceTable (as ++ bs))) ↔ _ := takes_allowances_iff
  rw [splits_iff_takes (entriesOf?_allowances h.whole) (entriesOf?_allowances h.first)
    (entriesOf?_allowances h.second) allowanceEntries_append_subset
    fun _ => nodup_allowance_keys _, ← hfit, or_comm, ← imp_iff_not_or]
  refine imp_congr_right fun ht => ⟨fun hs => row_eq_empty_of_same ht hs.1 hs.2, fun hempty => ?_⟩
  have hperm := perm_allowanceEntries_append hempty
  exact ⟨(takes_perm hperm).1 ht, at?_putAll_perm hperm ht⟩

theorem splits_allowances_of_new (h : Parts allowanceEntriesOfText? whole first second as bs)
    (hnew : ∀ r ∈ bs, r.1 ∉ as.map Prod.fst) :
    d.Splits Eq .allowances whole first second := by
  have happend : allowanceEntries (allowanceTable (as ++ bs)) =
      allowanceEntries (allowanceTable as) ++ allowanceEntries (allowanceTable bs) := by
    have hnew' : ∀ r ∈ bs.map fun r => (r.1, Table.ofList r.2),
        r.1 ∉ (as.map fun r => (r.1, Table.ofList r.2)).map Prod.fst := by
      intro _ hmem
      obtain ⟨r, hr, rfl⟩ := List.mem_map.1 hmem
      rw [List.map_map]
      exact hnew r hr
    unfold allowanceEntries AllowanceTable.flatten allowanceTable
    rw [List.map_append, Table.entries_ofList_append hnew', List.flatMap_append, List.map_append]
  exact splits_of_append ((entriesOf?_allowances h.whole).trans (congrArg some happend))
    (entriesOf?_allowances h.first) (entriesOf?_allowances h.second)

end Allowances

/-- **Where a text can be split.** Whatever is defined before, a list of formulas or of attributes
can be split anywhere. Weights that fit can be split exactly where no name stands on both sides, and
allowances that fit exactly where a rarity that stands on both sides has no allowance on the first;
what they define is then the same up to the order of the rarities, and the same when no rarity
stands on both sides. -/
theorem definitions_split (d : Definitions) (whole first second : String) :
    (∀ as bs, Parts formulasOfText? whole first second as bs →
      d.Splits Eq .formulas whole first second) ∧
    (∀ as bs, Parts attributesOfText? whole first second as bs →
      d.Splits Eq .attributes whole first second) ∧
    (∀ as bs, Parts weightEntriesOfText? whole first second as bs →
      (d.Splits Eq .weights whole first second ↔
        (∀ e ∈ bs, e.1 ∉ as.map Prod.fst) ∨ ¬d.WeightsFit (Table.ofList (as ++ bs)))) ∧
    ∀ as bs, Parts allowanceEntriesOfText? whole first second as bs →
      (d.Splits SameEntries .allowances whole first second ↔
        (∀ r ∈ bs, (allowanceTable as).row r.1 = ∅) ∨
          ¬d.AllowancesFit (allowanceTable (as ++ bs))) ∧
      ((∀ r ∈ bs, r.1 ∉ as.map Prod.fst) → d.Splits Eq .allowances whole first second) :=
  ⟨fun _ _ => splits_formulas, fun _ _ => splits_attributes, fun _ _ => splits_weights_iff,
    fun _ _ h => ⟨splits_allowances_iff h, splits_allowances_of_new h⟩⟩

/-- Two definitions of each kind, and allowances of a rarity that had none. -/
theorem two_of_each_split :
    Splits Eq ∅ .formulas
      "(formulas: [(name: \"all\", expression: \"max\"), (name: \"all\", expression: \"min\")])"
      "(formulas: [(name: \"all\", expression: \"max\")])"
      "(formulas: [(name: \"all\", expression: \"min\")])" ∧
    Splits Eq ∅ .attributes "(attributes: [(name: \"DAMAGE\"), (name: \"SPEED\")])"
      "(attributes: [(name: \"DAMAGE\")])" "(attributes: [(name: \"SPEED\")])" ∧
    Splits Eq ∅ .weights "(weights: \x7b \"DAMAGE\": 2.0, \"SPEED\": 0.5 \x7d)"
      "(weights: \x7b \"DAMAGE\": 2.0 \x7d)" "(weights: \x7b \"SPEED\": 0.5 \x7d)" ∧
    Splits SameEntries ∅ .allowances
      "(allowances: \x7b \"RARE\": \x7b\x7d, \"RARE\": \x7b \"Sword\": 6.0 \x7d \x7d)"
      "(allowances: \x7b \"RARE\": \x7b\x7d \x7d)"
      "(allowances: \x7b \"RARE\": \x7b \"Sword\": 6.0 \x7d \x7d)" := by
  refine ⟨(definitions_split ∅ _ _ _).1
      [⟨"all", "max", ""⟩] [⟨"all", "min", ""⟩] ⟨?_, ?_, ?_⟩,
    (definitions_split ∅ _ _ _).2.1
      [⟨"DAMAGE", .custom, "", "", []⟩] [⟨"SPEED", .custom, "", "", []⟩] ⟨?_, ?_, ?_⟩,
    ((definitions_split ∅ _ _ _).2.2.1 [("DAMAGE", 2.0)] [("SPEED", 0.5)] ⟨?_, ?_, ?_⟩).2
      (.inl ?_),
    ((definitions_split ∅ _ _ _).2.2.2 [("RARE", [])] [("RARE", [("Sword", 6.0)])]
      ⟨?_, ?_, ?_⟩).1.2 (.inl ?_)⟩
  all_goals decide +kernel

/-- A weight that is written twice in one text loses its first value; in two texts, the second one
is refused. -/
theorem repeated_weight_lost :
    let whole := "(weights: \x7b \"DAMAGE\": 1.0, \"DAMAGE\": 2.0 \x7d)"
    let first := "(weights: \x7b \"DAMAGE\": 1.0 \x7d)"
    let second := "(weights: \x7b \"DAMAGE\": 2.0 \x7d)"
    (load ∅ .weights whole).error = none ∧
    (load ∅ .weights whole).definitions.weights.entries = [("DAMAGE", 2.0)] ∧
    (load ∅ .weights first).error = none ∧
    ((load ∅ .weights first).definitions.load .weights second).error =
      some (.duplicate "weight DAMAGE") ∧
    ¬Splits Eq ∅ .weights whole first second := by
  intro whole first second
  have hwhole : (load ∅ .weights whole).error = none := by decide +kernel
  have hsecond : ((load ∅ .weights first).definitions.load .weights second).error =
      some (.duplicate "weight DAMAGE") := by decide +kernel
  refine ⟨hwhole, by decide +kernel, by decide +kernel, hsecond, fun h => ?_⟩
  have hload : load ∅ .weights whole = (load ∅ .weights whole).definitions.accept := by
    rw [accept, ← hwhole]
  obtain ⟨d₁, d₂, h₁, h₂, -⟩ := h.parts hload
  rw [h₁] at hsecond
  exact nomatch (congrArg Loaded.error h₂).symm.trans hsecond

end Definitions

end ItemBudget
