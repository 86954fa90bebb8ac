import ItemBudget.Definition.Basic
import Mathlib.Data.List.Nodup
import Mathlib.Data.List.Perm.Basic

/-!
# The entries of definitions

Definitions are entries under keys: `at?` is that view, and `put` puts an entry under its key.
`Takes` says that entries can be put one after the other, each of them new and valid. It reads the
entries as a set (`takes_perm`), and so does the view of what comes out (`at?_putAll`).
-/

namespace ItemBudget

/-- One thing that is defined. -/
inductive Entry where
  | formula (f : NamedFormula)
  | itemAttribute (a : AttributeDefinition)
  | weight (name : String) (x : Float)
  | allowance (rarity className : String) (x : Float)
  /-- The formula in force. -/
  | active (formula : String)

namespace Entry

/-- What an entry is defined under. -/
inductive Key where
  | formula (name : String)
  | itemAttribute (name : String)
  | weight (name : String)
  | allowance (rarity className : String)
  | active

/-- The key of an entry. A formula and an attribute stand under their own names. -/
def key : Entry → Key
  | formula f => .formula f.name
  | itemAttribute a => .itemAttribute a.name
  | weight name _ => .weight name
  | allowance rarity className _ => .allowance rarity className
  | active _ => .active

/-- What an entry must meet whatever else is defined: a formula in the book is valid, a weight is a
finite number that is not negative, and an allowance is a finite number. -/
def Valid : Entry → Prop
  | formula f => Formula.validate f.expression = .ok ()
  | weight _ x => x.isFinite = true ∧ 0.0 ≤ x
  | allowance _ _ x => x.isFinite = true
  | itemAttribute _ | active _ => True

end Entry

namespace Definitions

open Entry (Key)

/-- The entry under a key. -/
def at? (d : Definitions) : Key → Option Entry
  | .formula name => (Table.get? d.formulas name).map .formula
  | .itemAttribute name => (Table.get? d.attributes name).map .itemAttribute
  | .weight name => (d.weights.get? name).map (.weight name)
  | .allowance rarity className =>
    (AllowanceTable.get? d.allowances rarity className).map (.allowance rarity className)
  | .active => d.activeFormula.map .active

/-- The definitions with one more entry. -/
def put (d : Definitions) : Entry → Definitions
  | .formula f => { d with formulas := Table.insert d.formulas f.name f }
  | .itemAttribute a => { d with attributes := Table.insert d.attributes a.name a }
  | .weight name x => { d with weights := d.weights.insert name x }
  | .allowance rarity className x =>
    { d with allowances := AllowanceTable.set d.allowances rarity className x }
  | .active formula => { d with activeFormula := some formula }

/-- The definitions with entries put one after the other. -/
def putAll (d : Definitions) (es : List Entry) : Definitions := es.foldl put d

variable {d : Definitions} {e : Entry} {es es' : List Entry} {k : Key}

theorem at?_empty (k : Key) : at? ∅ k = none := by
  cases k <;> rfl

theorem at?_put_key (d : Definitions) (e : Entry) : (d.put e).at? e.key = some e := by
  cases e with
  | formula f => simp only [put, Entry.key, at?, Table.get?_insert, if_true, Option.map_some]
  | itemAttribute a => simp only [put, Entry.key, at?, Table.get?_insert, if_true, Option.map_some]
  | weight name x => simp only [put, Entry.key, at?, Table.get?_insert, if_true, Option.map_some]
  | allowance rarity className x =>
    simp only [put, Entry.key, at?, AllowanceTable.get?_set, and_self, if_true, Option.map_some]
  | active formula => rfl

theorem at?_put_of_ne (h : k ≠ e.key) : (d.put e).at? k = d.at? k := by
  -- an entry of one kind leaves the tables of the others
  cases e with
  | formula f =>
    cases k with
    | formula name =>
      have hname : name ≠ f.name := fun heq => h (congrArg Key.formula heq)
      simp only [put, at?, Table.get?_insert, if_neg hname]
    | _ => rfl
  | itemAttribute a =>
    cases k with
    | itemAttribute name =>
      have hname : name ≠ a.name := fun heq => h (congrArg Key.itemAttribute heq)
      simp only [put, at?, Table.get?_insert, if_neg hname]
    | _ => rfl
  | weight name x =>
    cases k with
    | weight name' =>
      have hname : name' ≠ name := fun heq => h (congrArg Key.weight heq)
      simp only [put, at?, Table.get?_insert, if_neg hname]
    | _ => rfl
  | allowance rarity className x =>
    cases k with
    | allowance rarity' className' =>
      have hname : ¬ (rarity' = rarity ∧ className' = className) := fun heq =>
        h (congrArg₂ Key.allowance heq.1 heq.2)
      simp only [put, at?, AllowanceTable.get?_set, if_neg hname]
    | _ => rfl
  | active formula =>
    cases k with
    | active => exact absurd rfl h
    | _ => rfl

/-! ## Several entries -/

/-- Entries can be put one after the other: each is valid, and none stands under a key that is
taken, before or by another of them. -/
structure Takes (d : Definitions) (es : List Entry) : Prop where
  valid : ∀ e ∈ es, e.Valid
  free : ∀ e ∈ es, d.at? e.key = none
  distinct : (es.map Entry.key).Nodup

theorem takes_nil (d : Definitions) : d.Takes [] :=
  ⟨fun _ h => (nomatch h), fun _ h => (nomatch h), List.nodup_nil⟩

theorem takes_cons : d.Takes (e :: es) ↔ (e.Valid ∧ d.at? e.key = none) ∧ (d.put e).Takes es := by
  constructor
  · intro h
    obtain ⟨he, hvalid⟩ := List.forall_mem_cons.1 h.valid
    obtain ⟨hnew, hfree⟩ := List.forall_mem_cons.1 h.free
    obtain ⟨hkey, hdistinct⟩ := List.nodup_cons.1 h.distinct
    refine ⟨⟨he, hnew⟩, hvalid, fun e' he' => ?_, hdistinct⟩
    have hne : e'.key ≠ e.key := fun heq => hkey (heq ▸ List.mem_map_of_mem he')
    rw [at?_put_of_ne hne]
    exact hfree e' he'
  · rintro ⟨⟨he, hnew⟩, hvalid, hfree, hdistinct⟩
    have hne : ∀ e' ∈ es, e'.key ≠ e.key := by
      intro e' he' heq
      have hnone := hfree e' he'
      rw [heq, at?_put_key] at hnone
      cases hnone
    refine ⟨List.forall_mem_cons.2 ⟨he, hvalid⟩, List.forall_mem_cons.2 ⟨hnew, fun e' he' => ?_⟩,
      List.nodup_cons.2 ⟨fun hmem => ?_, hdistinct⟩⟩
    · rw [← at?_put_of_ne (hne e' he')]
      exact hfree e' he'
    · obtain ⟨e', he', heq⟩ := List.mem_map.1 hmem
      exact hne e' he' heq

theorem takes_singleton : d.Takes [e] ↔ e.Valid ∧ d.at? e.key = none :=
  takes_cons.trans (and_iff_left (takes_nil _))

theorem takes_append {es fs : List Entry} :
    d.Takes (es ++ fs) ↔ d.Takes es ∧ (d.putAll es).Takes fs := by
  induction es generalizing d with
  | nil => exact (and_iff_right (takes_nil d)).symm
  | cons e es ih =>
    rw [List.cons_append, takes_cons, takes_cons, ih, ← and_assoc]
    rfl

theorem takes_perm (h : es.Perm es') : d.Takes es ↔ d.Takes es' := by
  have hmem : ∀ e, e ∈ es ↔ e ∈ es' := fun e => h.mem_iff
  have hkeys := (h.map Entry.key).nodup_iff
  constructor
  · intro ht
    exact ⟨fun e he => ht.valid e ((hmem e).2 he), fun e he => ht.free e ((hmem e).2 he),
      hkeys.1 ht.distinct⟩
  · intro ht
    exact ⟨fun e he => ht.valid e ((hmem e).1 he), fun e he => ht.free e ((hmem e).1 he),
      hkeys.2 ht.distinct⟩

theorem putAll_append (d : Definitions) (es fs : List Entry) :
    d.putAll (es ++ fs) = (d.putAll es).putAll fs :=
  List.foldl_append

/-- What stands under a key afterwards stood there before or was put there. -/
theorem at?_putAll (h : d.Takes es) :
    (d.putAll es).at? k = some e ↔ d.at? k = some e ∨ e ∈ es ∧ e.key = k := by
  induction es generalizing d with
  | nil => exact (or_iff_left fun h => (nomatch h.1)).symm
  | cons e' es ih =>
    obtain ⟨⟨-, hnew⟩, hrest⟩ := takes_cons.1 h
    show ((d.put e').putAll es).at? k = some e ↔ _
    rw [ih hrest, List.mem_cons, or_and_right, ← or_assoc]
    refine or_congr ?_ Iff.rfl
    by_cases hk : k = e'.key
    · subst hk
      rw [at?_put_key, hnew, Option.some_inj]
      exact ⟨fun heq => .inr ⟨heq.symm, heq ▸ rfl⟩, (·.elim (nomatch ·) (·.1.symm))⟩
    · rw [at?_put_of_ne hk]
      refine (or_iff_left ?_).symm
      rintro ⟨rfl, rfl⟩
      exact hk rfl

/-- The order in which entries are put is not seen under any key. -/
theorem at?_putAll_perm (hp : es.Perm es') (h : d.Takes es) (k : Key) :
    (d.putAll es).at? k = (d.putAll es').at? k := by
  apply Option.ext
  intro e
  rw [at?_putAll h, at?_putAll ((takes_perm hp).1 h), hp.mem_iff]

end Definitions

end ItemBudget
