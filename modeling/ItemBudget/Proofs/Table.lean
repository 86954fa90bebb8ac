import ItemBudget.Table
import Mathlib.Data.List.Forall2
import Mathlib.Data.List.Induction
import Mathlib.Data.List.Nodup
import Mathlib.Data.List.Perm.Basic

/-!
# Tables by their entries

A table is told by its keys in order and what it holds under each (`eq_of_view`). Entries that are
inserted under new keys come last in their order (`entries_foldl_insert`). Of a list with repeated
keys the table holds the last values (`get?_ofList`), and it relates to the table of another list
as the lists do (`forall₂_ofList`).
-/

namespace ItemBudget.Table

variable {α β : Type} {t t' : Table α} {key : String} {value : α}

/-! ## What a table holds -/

theorem mem_iff_lookup {κ : Type} [BEq κ] [LawfulBEq κ] [DecidableEq κ] {es : List (κ × α)}
    (hkeys : (es.map Prod.fst).Nodup) {key : κ} {x : α} :
    (key, x) ∈ es ↔ es.lookup key = some x := by
  induction es with
  | nil => exact iff_of_false (nomatch ·) (nomatch ·)
  | cons e es ih =>
    obtain ⟨key', x'⟩ := e
    obtain ⟨hnew, hrest⟩ := List.nodup_cons.1 hkeys
    rw [List.mem_cons, lookup_cons_ite]
    by_cases hk : key = key'
    · subst hk
      -- the key does not come again
      have hnone : (key, x) ∉ es := fun hmem => hnew (List.mem_map.2 ⟨_, hmem, rfl⟩)
      rw [if_pos rfl, Option.some_inj, Prod.mk.injEq, or_iff_left hnone]
      exact ⟨fun h => h.2.symm, fun h => ⟨rfl, h.symm⟩⟩
    · rw [if_neg hk, ← ih hrest]
      exact or_iff_right fun h => hk (Prod.mk.inj h).1

theorem mem_entries_iff {t : Table α} {key : String} {x : α} :
    (key, x) ∈ t.entries ↔ t.get? key = some x :=
  mem_iff_lookup t.nodup

theorem mem_keys_iff {t : Table α} {key : String} : key ∈ t.keys ↔ ∃ x, t.get? key = some x := by
  rw [keys, List.mem_map]
  constructor
  · rintro ⟨⟨key', x⟩, hmem, rfl⟩
    exact ⟨x, mem_entries_iff.1 hmem⟩
  · rintro ⟨x, hx⟩
    exact ⟨(key, x), mem_entries_iff.2 hx, rfl⟩

theorem eq_empty_or_exists (t : Table α) : t = ∅ ∨ ∃ key x, t.get? key = some x := by
  obtain ⟨es, hkeys⟩ := t
  cases es with
  | nil => exact .inl rfl
  | cons e es => exact .inr ⟨e.1, e.2, mem_entries_iff.1 List.mem_cons_self⟩

/-- Tables with the same values have the same entries up to their order. -/
theorem perm_entries {t t' : Table α} (h : ∀ key, t.get? key = t'.get? key) :
    t.entries.Perm t'.entries := by
  refine (List.perm_ext_iff_of_nodup t.nodup.of_map t'.nodup.of_map).2 fun e => ?_
  rw [mem_entries_iff, mem_entries_iff, h]

theorem entries_eq_filterMap (t : Table α) :
    t.entries = t.keys.filterMap fun key => (t.get? key).map (Prod.mk key) := by
  have hself : ∀ e ∈ t.entries, (t.get? e.1).map (Prod.mk e.1) = some e := by
    intro e he
    rw [mem_entries_iff.1 he, Option.map_some]
  rw [keys, List.filterMap_map]
  exact (List.filterMap_some.symm.trans (List.filterMap_congr fun e he => (hself e he).symm))

theorem eq_of_entries (h : t.entries = t'.entries) : t = t' := by
  cases t
  cases t'
  cases h
  rfl

theorem eq_of_view (hkeys : t.keys = t'.keys) (h : ∀ key, t.get? key = t'.get? key) : t = t' := by
  apply eq_of_entries
  rw [entries_eq_filterMap, entries_eq_filterMap t', hkeys]
  simp only [h]

/-! ## New keys -/

theorem get?_eq_none_iff : t.get? key = none ↔ key ∉ t.keys := by
  rw [get?, List.lookup_eq_none_iff, keys, List.mem_map]
  constructor
  · rintro h ⟨e, he, rfl⟩
    exact (bne_iff_ne.1 (h e he)) rfl
  · exact fun h e he => bne_iff_ne.2 fun heq => h ⟨e, he, heq.symm⟩

theorem put_append {es : List (String × α)} (h : key ∉ es.map Prod.fst) (fs : List (String × α)) :
    put key value (es ++ fs) = es ++ put key value fs := by
  induction es with
  | nil => rfl
  | cons e es ih =>
    rw [List.map_cons, List.mem_cons, not_or] at h
    rw [List.cons_append, put, if_neg (Ne.symm h.1), ih h.2, List.cons_append]

theorem put_of_notMem {es : List (String × α)} (h : key ∉ es.map Prod.fst) :
    put key value es = es ++ [(key, value)] := by
  have heq : put key value (es ++ []) = es ++ [(key, value)] := put_append h []
  rwa [List.append_nil] at heq

/-- An entry under a new key comes last. -/
theorem entries_insert_of_new (h : t.get? key = none) :
    (t.insert key value).entries = t.entries ++ [(key, value)] :=
  put_of_notMem (get?_eq_none_iff.1 h)

theorem entries_foldl_insert {es : List (String × α)} (hkeys : (es.map Prod.fst).Nodup)
    (hnew : ∀ e ∈ es, t.get? e.1 = none) :
    (es.foldl (fun t e => t.insert e.1 e.2) t).entries = t.entries ++ es := by
  induction es generalizing t with
  | nil => exact (List.append_nil _).symm
  | cons e es ih =>
    obtain ⟨hfirst, hrest⟩ := List.forall_mem_cons.1 hnew
    obtain ⟨hkey, hkeys⟩ := List.nodup_cons.1 hkeys
    have hstep : ∀ e' ∈ es, (t.insert e.1 e.2).get? e'.1 = none := by
      intro e' he'
      have hne : e'.1 ≠ e.1 := fun heq => hkey (heq ▸ List.mem_map_of_mem he')
      rw [get?_insert, if_neg hne]
      exact hrest e' he'
    rw [List.foldl_cons, ih hkeys hstep, entries_insert_of_new hfirst, List.append_assoc,
      List.singleton_append]

/-! ## Tables of lists -/

section OfList

variable {es fs : List (String × α)}

theorem ofList_concat (es : List (String × α)) (e : String × α) :
    ofList (es ++ [e]) = (ofList es).insert e.1 e.2 :=
  List.foldl_append

theorem entries_insert (t : Table α) (key : String) (value : α) :
    (t.insert key value).entries = put key value t.entries := rfl

theorem entries_ofList (h : (es.map Prod.fst).Nodup) : (ofList es).entries = es :=
  (entries_foldl_insert h fun _ _ => rfl).trans (List.nil_append es)

theorem ofList_entries (t : Table α) : ofList t.entries = t :=
  eq_of_entries (entries_ofList t.nodup)

theorem mem_keys_ofList : key ∈ (ofList es).keys ↔ key ∈ es.map Prod.fst := by
  induction es using List.reverseRecOn with
  | nil => exact Iff.rfl
  | append_singleton es e ih =>
    rw [ofList_concat, mem_keys_insert, ih, List.map_append, List.mem_append, or_comm]
    simp

theorem get?_ofList (es : List (String × α)) (key : String) :
    (ofList es).get? key = es.reverse.lookup key := by
  induction es using List.reverseRecOn with
  | nil => rfl
  | append_singleton es e ih =>
    rw [ofList_concat, get?_insert, ih, List.reverse_append, List.reverse_singleton,
      List.singleton_append, lookup_cons_ite]

theorem get?_ofList_append (es fs : List (String × α)) (key : String) :
    (ofList (es ++ fs)).get? key = ((ofList fs).get? key).or ((ofList es).get? key) := by
  simp only [get?_ofList, List.reverse_append, List.lookup_append]

/-- Lists without a common key enter one after the other. -/
theorem entries_ofList_append (h : ∀ f ∈ fs, f.1 ∉ es.map Prod.fst) :
    (ofList (es ++ fs)).entries = (ofList es).entries ++ (ofList fs).entries := by
  induction fs using List.reverseRecOn with
  | nil => simp [ofList, empty]
  | append_singleton fs f ih =>
    have hnew : f.1 ∉ (ofList es).keys := fun hmem => h f (by simp) (mem_keys_ofList.1 hmem)
    have hrest := ih fun f' hf' => h f' (List.mem_append_left _ hf')
    rw [← List.append_assoc, ofList_concat, ofList_concat, entries_insert, entries_insert, hrest]
    exact put_append hnew _

end OfList

section Related

variable {R : α → β → Prop} {es : List (String × α)} {fs : List (String × β)}

/-- Lists with the same keys and related values. -/
abbrev Related (R : α → β → Prop) : List (String × α) → List (String × β) → Prop :=
  List.Forall₂ fun e f => e.1 = f.1 ∧ R e.2 f.2

theorem Related.keys_eq (h : Related R es fs) : fs.map Prod.fst = es.map Prod.fst := by
  induction h with
  | nil => rfl
  | cons he _ ih => rw [List.map_cons, List.map_cons, ih, he.1]

/-- Related lists hold related values under each key. -/
theorem Related.lookup (h : Related R es fs) (key : String) :
    Option.Rel R (es.lookup key) (fs.lookup key) := by
  induction h with
  | nil => exact .none
  | @cons e f es fs he _ ih =>
    obtain ⟨k, x⟩ := e
    obtain ⟨k', y⟩ := f
    obtain ⟨rfl, hR⟩ := he
    rw [lookup_cons_ite, lookup_cons_ite]
    split
    · exact .some hR
    · exact ih

theorem Related.eq {R : α → α → Prop} {es fs : List (String × α)} (h : Related R es fs)
    (heq : ∀ e ∈ es, ∀ y, R e.2 y → y = e.2) : fs = es := by
  induction h with
  | nil => rfl
  | cons he _ ih =>
    have hvalue := heq _ List.mem_cons_self _ he.2
    rw [ih fun e he => heq e (List.mem_cons_of_mem _ he), Prod.ext he.1.symm hvalue]

theorem related_put {x : α} {y : β} (hx : R x y) (h : Related R es fs) :
    Related R (put key x es) (put key y fs) := by
  induction h with
  | nil => exact .cons ⟨rfl, hx⟩ .nil
  | @cons e f es fs he hrest ih =>
    unfold put
    rw [← he.1]
    split
    · exact .cons ⟨rfl, hx⟩ hrest
    · exact .cons he ih

theorem related_foldl_insert {t : Table α} {u : Table β} (ht : Related R t.entries u.entries)
    (h : Related R es fs) :
    Related R (es.foldl (fun t e => t.insert e.1 e.2) t).entries
      (fs.foldl (fun u f => u.insert f.1 f.2) u).entries := by
  induction h generalizing t u with
  | nil => exact ht
  | @cons e f es fs he hrest ih =>
    simp only [List.foldl_cons, ← he.1]
    exact ih (related_put he.2 ht)

theorem related_ofList (h : Related R es fs) :
    Related R (ofList es).entries (ofList fs).entries :=
  related_foldl_insert .nil h

end Related

end ItemBudget.Table
