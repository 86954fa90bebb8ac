import ItemBudget.Definition.Blob
import ItemBudget.Proofs.Definition.Tables
import ItemBudget.Proofs.Json.Numbers
import ItemBudget.Proofs.Json.Written

/-!
# Stored tables and typed ones

A JSON text of loose form is read as a value first, where an object has every key once, and then
entry by entry. A text that is a table as it stands is read so as well, and the two readings go
through its members side by side: what they make of the members of an object is related
(`exists_related`), so also the tables that they make (`Table.related_ofList`).
-/

namespace ItemBudget

/-! ## Rows without entries -/

namespace AllowanceTable

variable {t : AllowanceTable} {rarity : String}

theorem get?_eq_row (t : AllowanceTable) (rarity : String) :
    Table.get? t rarity = if rarity ∈ t.keys then some (row t rarity) else none := by
  split_ifs with h
  · obtain ⟨r, hr⟩ := Table.mem_keys_iff.1 h
    rw [row, hr, Option.getD_some]
  · exact Table.get?_eq_none_iff.2 h

theorem row_filter {p : Table Float → Bool} (h : rarity ∈ Table.keys (Table.filter t p)) :
    row (Table.filter t p) rarity = row t rarity := by
  obtain ⟨r, hr⟩ := Table.mem_keys_iff.1 h
  have hrow := hr
  rw [Table.get?_filter, Option.filter_eq_some_iff] at hrow
  rw [row, row, hr, hrow.1]

/-- Rows that are set one after the other make the table again, but for those without entries. -/
theorem setRows_entries (t : AllowanceTable) :
    setRows ∅ t.entries = Table.filter t fun row => !row.isEmpty := by
  have hkeys : Table.keys (setRows ∅ t.entries) = (Table.filter t fun row => !row.isEmpty).keys := by
    refine (keys_setRows ∅ t.nodup).trans ?_
    have hfilter : (t.entries.filter fun r =>
        decide (r.2.entries ≠ [] ∧ r.1 ∉ Table.keys (∅ : AllowanceTable))) =
        t.entries.filter fun r => !r.2.isEmpty := by
      refine List.filter_congr fun r _ => ?_
      have hnew : r.1 ∉ Table.keys (∅ : AllowanceTable) := List.not_mem_nil
      cases hentries : r.2.entries with
      | nil => simp [Table.isEmpty, hentries]
      | cons _ _ => simp [Table.isEmpty, hentries, hnew]
    rw [hfilter]
    rfl
  refine Table.eq_of_view hkeys fun rarity => ?_
  rw [get?_eq_row, get?_eq_row, hkeys]
  split_ifs with h
  · have hrow : row (setRows ∅ t.entries) rarity = Table.ofList (row t rarity).entries :=
      row_setRows ∅ t.nodup rarity
    rw [row_filter h, hrow, Table.ofList_entries]
  · rfl

end AllowanceTable

namespace Text

variable {c : Char} {cs : List Char}

/-- A visible ASCII character is not blank. -/
theorem isBlank_eq_false (hl : 32 < c.toNat) (hu : c.toNat < 127) : isBlank c = false := by
  simp [isBlank, blankRanges]
  omega

theorem all_isBlank_of_trimChars (h : (trimChars cs).isEmpty = true) :
    ∀ c ∈ cs, isBlank c = true := by
  rw [List.isEmpty_iff, trimChars, List.reverse_eq_nil_iff, List.dropWhile_eq_nil_iff] at h
  have hdrop : ∀ c ∈ cs.dropWhile isBlank, isBlank c = true := fun c hc =>
    h c (List.mem_reverse.2 hc)
  intro c hc
  rw [← List.takeWhile_append_dropWhile (p := isBlank) (l := cs), List.mem_append] at hc
  exact hc.elim List.mem_takeWhile_imp (hdrop c)

end Text

namespace Json

variable {c : Char} {cs : List Char} {n : Node} {text : String}

theorem readValue?_of_isBlank (h : Text.isBlank c = true) (cs : List Char) :
    readValue? (c :: cs) = none := by
  have hvisible : ∀ {d : Char}, 32 < d.toNat → d.toNat < 127 → c ≠ d := by
    rintro d hl hu rfl
    rw [Text.isBlank_eq_false hl hu] at h
    cases h
  have halpha : c.isAlpha = false := by
    by_contra halpha
    simp only [Char.isAlpha, Char.isUpper, Char.isLower, Bool.not_eq_false, Bool.or_eq_true,
      Bool.and_eq_true, decide_eq_true_eq, UInt32.le_iff_toNat_le] at halpha
    have hnat : c.val.toNat = c.toNat := rfl
    simp [hnat] at halpha
    exact hvisible (by omega) (by omega) rfl
  have hdigit : c.isDigit = false := by
    by_contra hdigit
    simp only [Char.isDigit, Bool.not_eq_false, Bool.and_eq_true, decide_eq_true_eq,
      UInt32.le_iff_toNat_le] at hdigit
    have hnat : c.val.toNat = c.toNat := rfl
    simp [hnat] at hdigit
    exact hvisible (by omega) (by omega) rfl
  have hminus : c ≠ '-' := hvisible (by decide) (by decide)
  rw [readValue?]
  · rw [dif_neg (Bool.eq_false_iff.1 halpha)]
    simp [readNumeral?, hdigit, hminus]
  all_goals exact hvisible (by decide) (by decide)

/-- A text that holds a value is not blank. -/
theorem trimChars_isEmpty_of_read? (h : read? text = some n) :
    (Text.trimChars text.toList).isEmpty = false := by
  by_contra hblank
  have hall := Text.all_isBlank_of_trimChars (Bool.not_eq_false _ ▸ hblank)
  have hnone : readValue? (Text.skip isBlank text.toList) = none := by
    cases hskip : Text.skip isBlank text.toList with
    | nil => simp [readValue?]
    | cons c cs =>
      have hmem : c ∈ text.toList := (List.dropWhile_sublist _).subset (hskip ▸ List.mem_cons_self)
      exact readValue?_of_isBlank (hall c hmem) cs
  rw [read?, hnone] at h
  cases h

end Json

/-! ## Members side by side -/

namespace Blob

open Json (Node Value Literal)

section Related

variable {α : Type} {R : α → Value → Prop} {read : Node → Option α} {levels : ℕ}
  (hread : ∀ {n : Node} {x : α}, read n = some x → ∃ v, n.valueWithin? levels = some v ∧ R x v)

include hread

theorem exists_related_members {ms : List (Literal × Node)} {xs : List (String × α)}
    (h : (Json.keyed? ms).bind (·.mapM fun e => (read e.2).map (Prod.mk e.1)) = some xs) :
    ∃ vs, Json.membersWithin? levels ms = some vs ∧ Table.Related R xs vs := by
  unfold Json.keyed? at h
  induction ms generalizing xs with
  | nil =>
    cases h
    exact ⟨[], rfl, .nil⟩
  | cons m ms ih =>
    obtain ⟨k, n⟩ := m
    rw [List.mapM_cons] at h
    cases k with
    | none => cases h
    | some k =>
      simp only [Option.map_some, Option.bind_eq_bind, Option.bind_some, Option.pure_def] at h
      cases hms : ms.mapM fun m => m.1.map (·, m.2) with
      | none =>
        rw [hms] at h
        cases h
      | some es =>
        rw [hms, Option.bind_some, Option.bind_some, List.mapM_cons] at h
        simp only [Option.bind_eq_bind, Option.pure_def, Option.bind_eq_some_iff,
          Option.map_eq_some_iff, Option.some_inj] at h
        obtain ⟨_, ⟨x, hx, rfl⟩, xs', hxs, rfl⟩ := h
        obtain ⟨v, hv, hr⟩ := hread hx
        obtain ⟨vs, hvs, hrel⟩ := ih (by rw [hms, Option.bind_some, hxs])
        refine ⟨(k, v) :: vs, ?_, .cons ⟨rfl, hr⟩ hrel⟩
        simp [Json.membersWithin?, hv, hvs]

/-- A node that is read as entries is an object whose members mean as much. -/
theorem exists_related {n : Node} {xs : List (String × α)}
    (h : Document.entriesOf? read n = some xs) :
    ∃ ms vs, n = .object ms ∧ Json.membersWithin? levels ms = some vs ∧ Table.Related R xs vs := by
  unfold Document.entriesOf? at h
  cases n with
  | object ms =>
    obtain ⟨vs, hvs, hrel⟩ := exists_related_members hread h
    exact ⟨ms, vs, rfl, hvs, hrel⟩
  | _ => cases h

end Related

/-- A number that is read is the one that the value means. -/
theorem number?_of_read {n : Node} {x : Float} {levels : ℕ} (h : Document.number? n = some x) :
    ∃ v, n.valueWithin? levels = some v ∧ number? v = some x := by
  cases n with
  | number m =>
    obtain ⟨k, hk, rfl⟩ := Option.map_eq_some_iff.1 h
    refine ⟨.number k, ?_, ?_⟩
    · simp [Node.valueWithin?, hk]
    · simp [number?, Json.isFinite_of_number? hk]
  | _ => cases h

/-- The meaningful values are the numbers that meet the test. -/
theorem meaningful_eq_filter {p : Float → Bool} {xs : List (String × Float)}
    {vs : List (String × Value)} (h : Table.Related (fun x v => number? v = some x) xs vs) :
    meaningful (fun v => (number? v).filter p) vs = xs.filter fun e => p e.2 := by
  induction h with
  | nil => rfl
  | @cons x v xs vs hx _ ih =>
    obtain ⟨hkey, hx⟩ := hx
    unfold meaningful at ih ⊢
    simp only [List.filterMap_cons, hx, Option.filter_some, ih, List.filter_cons, ← hkey]
    split_ifs <;> rfl

theorem meaningful_eq {xs : List (String × Float)} {vs : List (String × Value)}
    (h : Table.Related (fun x v => number? v = some x) xs vs) : meaningful number? vs = xs := by
  have hall : (fun v => (number? v).filter fun _ => true) = number? := by
    funext v
    cases number? v <;> rfl
  have heq := meaningful_eq_filter (p := fun _ => true) h
  rwa [hall, List.filter_true] at heq

/-! ## The two readings -/

theorem members_eq {what text : String} {n : Node} {ms : List (Literal × Node)}
    {vs : List (String × Value)} (hn : Json.read? text = some n) (hms : n = .object ms)
    (hvs : Json.membersWithin? 126 ms = some vs) :
    members what text = .ok (Table.ofList vs).entries := by
  subst hms
  have hvalue : (Node.object ms).value? = some (.object (Table.ofList vs).entries) := by
    simp [Node.value?, Json.maxLevels, Node.valueWithin?, hvs]
  unfold members
  rw [Json.trimChars_isEmpty_of_read? hn, if_neg Bool.false_ne_true, hn, Option.bind_some, hvalue]

theorem weights_of_read {text : String} {w : WeightTable}
    (h : (Json.read? text).bind WeightTable.ofDocument? = some w) :
    weights text = .ok (w.filter (0.0 ≤ ·)) := by
  obtain ⟨n, hn, hw⟩ := Option.bind_eq_some_iff.1 h
  obtain ⟨xs, hxs, rfl⟩ := Option.map_eq_some_iff.1 hw
  obtain ⟨ms, vs, hms, hvs, hrel⟩ := exists_related number?_of_read hxs
  have hfilter : meaningful weight? (Table.ofList vs).entries =
      ((Table.ofList xs).filter (0.0 ≤ ·)).entries :=
    meaningful_eq_filter (Table.related_ofList hrel)
  unfold weights
  rw [members_eq hn hms hvs, Except.map, hfilter, Table.ofList_entries]

/-- A row that is read is the one that the value means. -/
theorem allowanceRow_of_read {n : Node} {row : Table Float} {levels : ℕ}
    (h : WeightTable.ofDocument? n = some row) :
    ∃ v, n.valueWithin? (levels + 1) = some v ∧ allowanceRow v = row.entries := by
  obtain ⟨xs, hxs, rfl⟩ := Option.map_eq_some_iff.1 h
  have hmembers : ∃ ms vs, n = .object ms ∧ Json.membersWithin? levels ms = some vs ∧
      Table.Related (fun x v => number? v = some x) xs vs := exists_related number?_of_read hxs
  obtain ⟨ms, vs, rfl, hvs, hrel⟩ := hmembers
  refine ⟨.object (Table.ofList vs).entries, ?_, meaningful_eq (Table.related_ofList hrel)⟩
  simp [Node.valueWithin?, hvs]

theorem foldl_allowanceRow {rows : List (String × Table Float)} {vs : List (String × Value)}
    (h : Table.Related (fun row v => allowanceRow v = row.entries) rows vs) (t : AllowanceTable) :
    vs.foldl (fun t m => (allowanceRow m.2).foldl
      (fun t e => AllowanceTable.set t m.1 e.1 e.2) t) t = AllowanceTable.setRows t rows := by
  induction h generalizing t with
  | nil => rfl
  | @cons row v rows vs hrow _ ih =>
    rw [List.foldl_cons, ih, hrow.2, ← hrow.1]
    rfl

theorem allowances_of_read {text : String} {a : AllowanceTable}
    (h : (Json.read? text).bind AllowanceTable.ofDocument? = some a) :
    allowances text = .ok (Table.filter a fun row => !row.isEmpty) := by
  obtain ⟨n, hn, ha⟩ := Option.bind_eq_some_iff.1 h
  obtain ⟨rows, hrows, rfl⟩ := Option.map_eq_some_iff.1 ha
  have hmembers : ∃ ms vs, n = .object ms ∧ Json.membersWithin? 126 ms = some vs ∧
      Table.Related (fun row v => allowanceRow v = row.entries) rows vs :=
    exists_related allowanceRow_of_read hrows
  obtain ⟨ms, vs, hms, hvs, hrel⟩ := hmembers
  unfold allowances
  rw [members_eq hn hms hvs, ← AllowanceTable.setRows_entries,
    ← foldl_allowanceRow (Table.related_ofList hrel)]
  rfl

/-- **A stored table that is one as it stands is read as it is**: as weights without those below
zero, and as allowances without the rarities that have none. The values and their order are kept,
and so are the first place and the last value of a key that is written again. -/
theorem stored_tables_read (text : String) :
    (∀ w : WeightTable, (Json.read? text).bind WeightTable.ofDocument? = some w →
      weights text = .ok (w.filter (0.0 ≤ ·))) ∧
    ∀ a : AllowanceTable, (Json.read? text).bind AllowanceTable.ofDocument? = some a →
      allowances text = .ok (Table.filter a fun row => !row.isEmpty) :=
  ⟨fun _ => weights_of_read, fun _ => allowances_of_read⟩

/-- A weight that is written again and one below zero, and a rarity that is written again and one
without allowances. -/
theorem repeated_keys_read :
    weights "\x7b\"A\":1,\"B\":-2,\"A\":3\x7d" = .ok (Table.ofList [("A", 3.0)]) ∧
    allowances "\x7b\"RARE\":\x7b\"Bow\":1\x7d,\"EPIC\":\x7b\x7d,\"RARE\":\x7b\"Sword\":6\x7d\x7d" =
      .ok (Table.ofList [("RARE", Table.ofList [("Sword", 6.0)])]) := by
  have hstandard := fun negative n => Node.Standard.number (Json.standard_digitsOf negative n)
  have hweights : Json.read? "\x7b\"A\":1,\"B\":-2,\"A\":3\x7d" = some (.ofFields
      [("A", .ofNat 1), ("B", .number ⟨true, Decimal.digitsOf 2, [], none⟩), ("A", .ofNat 3)]) := by
    refine Eq.trans ?_ (Json.read?_compact (.ofFields ?_))
    · exact congrArg Json.read? (by decide +kernel)
    · simp [Node.ofNat, Decimal.Numeral.ofNat, hstandard]
  have hallowances : Json.read?
      "\x7b\"RARE\":\x7b\"Bow\":1\x7d,\"EPIC\":\x7b\x7d,\"RARE\":\x7b\"Sword\":6\x7d\x7d" =
      some (.ofFields [("RARE", .ofFields [("Bow", .ofNat 1)]), ("EPIC", .ofFields []),
        ("RARE", .ofFields [("Sword", .ofNat 6)])]) := by
    refine Eq.trans ?_ (Json.read?_compact (.ofFields ?_))
    · exact congrArg Json.read? (by decide +kernel)
    · simp [Node.ofNat, Decimal.Numeral.ofNat, hstandard, Json.Node.Standard.ofFields]
  constructor
  · rw [(stored_tables_read _).1 (Table.ofList [("A", 3.0), ("B", -2.0)])]
    · exact congrArg Except.ok (by decide +kernel)
    · rw [hweights]
      decide +kernel
  · rw [(stored_tables_read _).2
      (Table.ofList [("RARE", Table.ofList [("Sword", 6.0)]), ("EPIC", ∅)])]
    · exact congrArg Except.ok (by decide +kernel)
    · rw [hallowances]
      decide +kernel

end Blob

end ItemBudget
