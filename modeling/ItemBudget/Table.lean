/-!
# Tables

A table maps keys to values and keeps the order in which its keys first came: a later value for a
key replaces the earlier one and keeps its place. No key occurs twice, and the type says so. The
view of a table is its list of entries; `get?_insert` and `keys_insert` say what an insertion does
to the two parts of that view.
-/

namespace ItemBudget

/-- Entries in order of insertion, each key once. -/
structure Table (α : Type) where
  entries : List (String × α)
  nodup : (entries.map Prod.fst).Nodup
deriving DecidableEq

namespace Table

variable {α : Type}

/-- The entries with the value of `key` replaced in place, or added at the end. -/
def put (key : String) (value : α) : List (String × α) → List (String × α)
  | [] => [(key, value)]
  | e :: es => if e.1 = key then (key, value) :: es else e :: put key value es

theorem keys_put (key : String) (value : α) (es : List (String × α)) :
    (put key value es).map Prod.fst
      = if key ∈ es.map Prod.fst then es.map Prod.fst else es.map Prod.fst ++ [key] := by
  induction es with
  | nil => simp [put]
  | cons e es ih =>
    unfold put
    by_cases h : e.1 = key
    · simp [h]
    · simp only [h, if_false, List.map_cons, ih, List.mem_cons, Ne.symm h, false_or]
      split <;> simp_all

theorem nodup_put {key : String} {value : α} {es : List (String × α)}
    (h : (es.map Prod.fst).Nodup) : ((put key value es).map Prod.fst).Nodup := by
  rw [keys_put]
  split
  · exact h
  · rename_i hk
    exact List.nodup_append.2 ⟨h, by simp, fun a ha b hb => by
      rintro rfl; simp only [List.mem_singleton] at hb; exact hk (hb ▸ ha)⟩

/-- The table without entries. -/
def empty : Table α := ⟨[], List.nodup_nil⟩

instance : EmptyCollection (Table α) := ⟨empty⟩

instance : Inhabited (Table α) := ⟨empty⟩

/-- The table with `value` for `key`. -/
def insert (t : Table α) (key : String) (value : α) : Table α :=
  ⟨put key value t.entries, nodup_put t.nodup⟩

/-- The keys in order. -/
def keys (t : Table α) : List String := t.entries.map Prod.fst

/-- The value of a key. -/
def get? (t : Table α) (key : String) : Option α := t.entries.lookup key

/-- The table has a value for the key. -/
def contains (t : Table α) (key : String) : Bool := (t.get? key).isSome

/-- The number of entries. -/
def size (t : Table α) : Nat := t.entries.length

/-- The table has no entry. -/
def isEmpty (t : Table α) : Bool := t.entries.isEmpty

/-- The table that the entries make when inserted in order: of a repeated key the first place and
the last value. -/
def ofList (es : List (String × α)) : Table α :=
  es.foldl (fun t e => t.insert e.1 e.2) empty

/-- The table of the entries whose values meet `p`. -/
def filter (t : Table α) (p : α → Bool) : Table α :=
  ⟨t.entries.filter fun e => p e.2, t.nodup.sublist (List.filter_sublist.map _)⟩

theorem keys_insert (t : Table α) (key : String) (value : α) :
    (t.insert key value).keys = if key ∈ t.keys then t.keys else t.keys ++ [key] :=
  keys_put key value t.entries

theorem mem_keys_insert {t : Table α} {key key' : String} {value : α} :
    key' ∈ (t.insert key value).keys ↔ key' = key ∨ key' ∈ t.keys := by
  rw [keys_insert]
  split
  · next hkey => exact ⟨.inr, (·.elim (· ▸ hkey) id)⟩
  · rw [List.mem_append, List.mem_singleton, or_comm]

theorem lookup_cons_ite {κ : Type} [BEq κ] [LawfulBEq κ] [DecidableEq κ] (key key' : κ) (value : α)
    (es : List (κ × α)) :
    ((key, value) :: es).lookup key' = if key' = key then some value else es.lookup key' := by
  by_cases h : key' = key
  · simp [h]
  · rw [List.lookup_cons, beq_eq_false_iff_ne.2 h, if_neg h]

theorem lookup_put (key key' : String) (value : α) (es : List (String × α)) :
    (put key value es).lookup key' = if key' = key then some value else es.lookup key' := by
  induction es with
  | nil => simp only [put, lookup_cons_ite]
  | cons e es ih =>
    obtain ⟨k, v⟩ := e
    unfold put
    by_cases hk : k = key
    · subst hk
      simp only [if_true, lookup_cons_ite]
      split <;> rfl
    · simp only [hk, if_false, lookup_cons_ite, ih]
      by_cases h : key' = k
      · subst h; simp [hk]
      · simp [h]

theorem get?_insert (t : Table α) (key key' : String) (value : α) :
    (t.insert key value).get? key' = if key' = key then some value else t.get? key' :=
  lookup_put key key' value t.entries

theorem lookup_filter {es : List (String × α)} (h : (es.map Prod.fst).Nodup) (p : α → Bool)
    (key : String) : (es.filter fun e => p e.2).lookup key = (es.lookup key).filter p := by
  induction es with
  | nil => rfl
  | cons e es ih =>
    obtain ⟨k, v⟩ := e
    obtain ⟨hnew, hnodup⟩ := List.nodup_cons.1 h
    rw [lookup_cons_ite, List.filter_cons]
    by_cases hk : key = k
    · subst hk
      -- the key does not come again
      have hrest : es.lookup key = none := by
        rw [List.lookup_eq_none_iff]
        intro e' he'
        rw [bne_iff_ne]
        intro heq
        exact hnew (List.mem_map.2 ⟨e', he', heq.symm⟩)
      by_cases hv : p v = true
      · simp [hv, Option.filter_some]
      · simp [hv, ih hnodup, hrest, Option.filter_some]
    · rw [if_neg hk, ← ih hnodup]
      by_cases hv : p v = true
      · rw [if_pos hv, lookup_cons_ite, if_neg hk]
      · rw [if_neg hv]

/-- A table that was filtered holds the values that met the test. -/
theorem get?_filter (t : Table α) (p : α → Bool) (key : String) :
    (t.filter p).get? key = (t.get? key).filter p :=
  lookup_filter t.nodup p key

end Table

end ItemBudget
