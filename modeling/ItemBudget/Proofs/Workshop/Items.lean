import ItemBudget.Workshop.Store
import Mathlib.Tactic.Common

/-!
# What the changes of a store change

Each change of a store is described by what is stored afterwards under every number, and by the
record that it adds. Everything else stays: the other items, the configuration, the older records.
-/

namespace ItemBudget.Workshop.Store

variable {s s' : Store} {actor : String} {id : ItemId} {item old : Item} {time : Time.Instant}
  {b : Breakdown}

/-! ## Inversion -/

theorem update_eq_ok : s.update actor id item time = .ok (b, s') ↔
    ∃ old, s.item? id = some old ∧ b = s.budgetOf item ∧
      s' = { s with
        items := s.items.map fun x => if x.id = id then ⟨id, item⟩ else x
        history := s.history.record
          ⟨id, .updated, actor, some (s.cost old), some (s.cost item)⟩ time } := by
  unfold update
  cases s.item? id with
  | none => exact ⟨(nomatch ·), fun ⟨_, h, _⟩ => nomatch h⟩
  | some old => simp [eq_comm]

theorem delete_eq_ok : s.delete actor id time = .ok (item, s') ↔
    s.item? id = some item ∧
      s' = { s with
        items := s.items.filter (·.id ≠ id)
        history := s.history.record ⟨id, .deleted, actor, some (s.cost item), none⟩ time } := by
  unfold delete
  cases s.item? id with
  | none => exact ⟨(nomatch ·), fun ⟨h, _⟩ => nomatch h⟩
  | some old =>
    constructor
    · intro h
      cases h
      exact ⟨rfl, rfl⟩
    · rintro ⟨h, rfl⟩
      cases h
      rfl

/-! ## The items -/

/-- A new item is stored under its number. -/
theorem item?_create (h : s.item? s.nextId = none) (id : ItemId) :
    (s.create actor item time).2.item? id = if id = s.nextId then some item else s.item? id := by
  unfold item? at h ⊢
  rw [Option.map_eq_none_iff] at h
  simp only [create, List.find?_append]
  split
  · next hid =>
    rw [hid, h, Option.none_or, List.find?_cons_of_pos (by simp)]
    rfl
  · next hid =>
    rw [List.find?_cons_of_neg (by simpa using Ne.symm hid), List.find?_nil, Option.or_none]

/-- An update puts its item in the place of the one under its number. -/
theorem item?_update (h : s.update actor id item time = .ok (b, s')) (id' : ItemId) :
    s'.item? id' = if id' = id then some item else s.item? id' := by
  obtain ⟨old, hold, -, rfl⟩ := update_eq_ok.1 h
  unfold item? at hold ⊢
  have hp : (fun x : Stored => decide (x.id = id'))
      ∘ (fun x => if x.id = id then ⟨id, item⟩ else x) = fun x => decide (x.id = id') := by
    funext x
    by_cases hx : x.id = id <;> simp [hx]
  rw [List.find?_map, hp]
  split
  · next hid =>
    subst hid
    obtain ⟨x, hx, -⟩ := Option.map_eq_some_iff.1 hold
    have hxid := List.find?_some hx
    rw [decide_eq_true_eq] at hxid
    rw [hx, Option.map_some, Option.map_some, if_pos hxid]
  · next hid =>
    cases hx : s.items.find? fun x => decide (x.id = id') with
    | none => rfl
    | some x =>
      have hxid := List.find?_some hx
      rw [decide_eq_true_eq] at hxid
      rw [Option.map_some, if_neg (by rwa [hxid])]

/-- A deletion leaves nothing under its number. -/
theorem item?_delete (h : s.delete actor id time = .ok (item, s')) (id' : ItemId) :
    s'.item? id' = if id' = id then none else s.item? id' := by
  obtain ⟨-, rfl⟩ := delete_eq_ok.1 h
  unfold item?
  rw [List.find?_filter]
  split
  · next hid =>
    rw [Option.map_eq_none_iff, List.find?_eq_none]
    simp [hid]
  · next hid =>
    congr 2
    funext x
    by_cases hx : x.id = id'
    · simp [hx, hid]
    · simp [hx]

end ItemBudget.Workshop.Store

namespace ItemBudget.Journal.History

/-- A record is added to the records of its item. -/
theorem recordsFor_record {h : History} (hl : h.limit = none) (change : Change)
    (time : Time.Instant) (id : ItemId) :
    (h.record change time).recordsFor id =
      if change.item = id then h.recordsFor id ++ [⟨change, h.nextSeq, time⟩]
      else h.recordsFor id := by
  unfold recordsFor
  rw [records_record change time hl, List.filter_append]
  split
  · next hid => rw [List.filter_cons_of_pos (by simpa using hid), List.filter_nil]
  · next hid => rw [List.filter_cons_of_neg (by simpa using hid), List.filter_nil, List.append_nil]

end ItemBudget.Journal.History
