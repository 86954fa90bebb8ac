import ItemBudget.Proofs.Workshop.Items
import ItemBudget.Proofs.Workshop.Story
import Mathlib.Data.List.Range

/-!
# The numbers of the items

In every run from an empty store, the creations that succeed return 1, 2, 3 and so on, and the store
holds in this order the numbers that were returned and not deleted since. The invariant `Numbered`
says so; a refused call adds no number, and a number that was deleted was returned before, so the
next one is fresh.
-/

namespace ItemBudget.Workshop

variable {es : List Event} {e : Event} {s s' : Store} {id : ItemId} {item : Item} {b : Breakdown}
  {actor : String} {time : Time.Instant} {now : Clock} {c : Call} {r : Except Error Answer}

/-! ## The numbers in a store -/

namespace Store

theorem ids_create : (s.create actor item time).2.ids = s.ids ++ [s.nextId] := by
  simp [create, ids]

theorem ids_update (h : s.update actor id item time = .ok (b, s')) : s'.ids = s.ids := by
  obtain ⟨old, -, -, rfl⟩ := update_eq_ok.1 h
  simp only [ids, List.map_map]
  apply List.map_congr_left
  intro x _
  by_cases hx : x.id = id
  · simp [hx]
  · simp [hx]

theorem ids_delete (h : s.delete actor id time = .ok (item, s')) :
    s'.ids = s.ids.filter (· ≠ id) := by
  obtain ⟨-, rfl⟩ := delete_eq_ok.1 h
  simp only [ids, List.filter_map]
  rfl

theorem mem_ids_of_item? (h : s.item? id = some item) : id ∈ s.ids := by
  obtain ⟨x, hx, -⟩ := Option.map_eq_some_iff.1 h
  have hid := List.find?_some hx
  rw [decide_eq_true_eq] at hid
  rw [← hid]
  exact List.mem_map_of_mem (List.mem_of_find?_eq_some hx)

end Store

/-! ## The numbers in the replies -/

namespace Event

/-- The event is a creation that succeeded. -/
def isCreation (e : Event) : Bool :=
  match e.call with
  | .create .. => e.reply.isOk
  | _ => false

/-- The number under which the event deleted an item, if it did. -/
def deleted? (e : Event) : Option ItemId :=
  match e.call, e.reply with
  | .delete _ id, .ok _ => some id
  | _, _ => none

end Event

/-- The numbers under which items were deleted. -/
def deletedIds (es : List Event) : List ItemId := es.filterMap Event.deleted?

/-- How many creations succeeded. -/
def creations (es : List Event) : Nat := es.countP Event.isCreation

/-- What the replies of a run and the numbers in the store have to do with each other. -/
structure Numbered (es : List Event) (s : Store) : Prop where
  created : createdIds es = List.range' 1 (creations es)
  next : s.nextId = creations es + 1
  deleted : ∀ id ∈ deletedIds es, id ∈ createdIds es
  sorted : s.ids.Pairwise (· < ·)
  stored : ∀ id, id ∈ s.ids ↔ id ∈ createdIds es ∧ id ∉ deletedIds es

theorem numbered_empty (config : BudgetConfig) (maxHistory : Option Nat) :
    Numbered [] (.empty config maxHistory) where
  created := rfl
  next := rfl
  deleted := fun _ h => nomatch h
  sorted := .nil
  stored := fun _ => ⟨(nomatch ·), fun h => nomatch h.1⟩

theorem deletedIds_concat : deletedIds (es ++ [e]) = deletedIds es ++ e.deleted?.toList := by
  unfold deletedIds
  cases h : e.deleted? with
  | none => simp [h]
  | some id => simp [h]

theorem createdIds_concat : createdIds (es ++ [e]) = createdIds es ++ e.created?.toList := by
  unfold createdIds
  cases h : e.created? with
  | none => simp [h]
  | some id => simp [h]

theorem creations_concat : creations (es ++ [e]) = creations es + e.isCreation.toNat := by
  unfold creations
  cases h : e.isCreation <;> simp [h]

namespace Numbered

/-- An event that neither creates nor deletes, on the same numbers. -/
theorem keep (h : Numbered es s) (hcreates : e.isCreation = false) (hcreated : e.created? = none)
    (hdeleted : e.deleted? = none) (hids : s'.ids = s.ids) (hnext : s'.nextId = s.nextId) :
    Numbered (es ++ [e]) s' := by
  have hc : createdIds (es ++ [e]) = createdIds es := by simp [createdIds_concat, hcreated]
  have hd : deletedIds (es ++ [e]) = deletedIds es := by simp [deletedIds_concat, hdeleted]
  have hn : creations (es ++ [e]) = creations es := by simp [creations_concat, hcreates]
  refine ⟨?_, ?_, ?_, ?_, ?_⟩
  · rw [hc, hn]; exact h.created
  · rw [hnext, hn]; exact h.next
  · rw [hc, hd]; exact h.deleted
  · rw [hids]; exact h.sorted
  · rw [hc, hd, hids]; exact h.stored

/-- Every number that was returned is below the next one. -/
theorem lt_next (h : Numbered es s) (hid : id ∈ createdIds es) : id < s.nextId := by
  rw [h.created, List.mem_range'_1] at hid
  rw [h.next, Nat.add_comm]
  exact hid.2

theorem create (h : Numbered es s) (actor : String) (item : Item) (now : Clock) :
    Numbered (es ++ [⟨.create actor item, now, .ok (.created s.nextId (s.budgetOf item))⟩])
      (s.create actor item now.civil).2 := by
  have hids := @Store.ids_create s item actor now.civil
  generalize he : (⟨.create actor item, now, .ok (.created s.nextId (s.budgetOf item))⟩ : Event) = e
  have hc : createdIds (es ++ [e]) = createdIds es ++ [s.nextId] := by
    subst he
    rw [createdIds_concat]
    rfl
  have hd : deletedIds (es ++ [e]) = deletedIds es := by
    subst he
    rw [deletedIds_concat]
    exact List.append_nil _
  have hn : creations (es ++ [e]) = creations es + 1 := by
    subst he
    rw [creations_concat]
    rfl
  -- the next number was not returned, and so it was not deleted either
  have hfresh : s.nextId ∉ deletedIds es := by
    intro hmem
    exact Nat.lt_irrefl _ (h.lt_next (h.deleted _ hmem))
  refine ⟨?_, ?_, ?_, ?_, ?_⟩
  · rw [hc, hn, h.created, h.next, List.range'_1_concat, Nat.add_comm 1]
  · rw [hn, ← h.next]; rfl
  · intro id hid
    rw [hd] at hid
    rw [hc]
    exact List.mem_append_left _ (h.deleted id hid)
  · rw [hids, List.pairwise_append]
    refine ⟨h.sorted, List.pairwise_singleton _ _, ?_⟩
    intro x hx y hy
    rw [List.mem_singleton.1 hy]
    exact h.lt_next ((h.stored x).1 hx).1
  · intro id
    rw [hids, hc, hd, List.mem_append, List.mem_append, h.stored, List.mem_singleton]
    constructor
    · rintro (⟨hmem, hdel⟩ | rfl)
      · exact ⟨.inl hmem, hdel⟩
      · exact ⟨.inr rfl, hfresh⟩
    · rintro ⟨hmem | hid, hdel⟩
      · exact .inl ⟨hmem, hdel⟩
      · exact .inr hid

theorem delete (h : Numbered es s) (hd : s.delete actor id now.civil = .ok (item, s')) :
    Numbered (es ++ [⟨.delete actor id, now, .ok (.deleted item)⟩]) s' := by
  have hids := Store.ids_delete hd
  obtain ⟨hold, rfl⟩ := Store.delete_eq_ok.1 hd
  have hmem := (h.stored id).1 (Store.mem_ids_of_item? hold)
  have hc : createdIds (es ++ [⟨.delete actor id, now, .ok (.deleted item)⟩]) = createdIds es := by
    rw [createdIds_concat]
    exact List.append_nil _
  have hdel : deletedIds (es ++ [⟨.delete actor id, now, .ok (.deleted item)⟩])
      = deletedIds es ++ [id] := by
    rw [deletedIds_concat]
    rfl
  have hn : creations (es ++ [⟨.delete actor id, now, .ok (.deleted item)⟩]) = creations es := by
    rw [creations_concat]
    rfl
  refine ⟨?_, ?_, ?_, ?_, ?_⟩
  · rw [hc, hn]; exact h.created
  · rw [hn]; exact h.next
  · intro x hx
    rw [hdel, List.mem_append, List.mem_singleton] at hx
    rw [hc]
    rcases hx with hx | rfl
    · exact h.deleted x hx
    · exact hmem.1
  · rw [hids]; exact h.sorted.filter _
  · intro x
    rw [hids, hc, hdel, List.mem_filter, List.mem_append, List.mem_singleton, h.stored]
    simp only [ne_eq, decide_not, Bool.not_eq_true', decide_eq_false_iff_not]
    tauto

theorem step (h : Numbered es s) (ho : Outcome s now c r s') : Numbered (es ++ [⟨c, now, r⟩]) s' := by
  cases ho with
  | create actor item => exact h.create actor item now
  | update hu =>
    have hids := Store.ids_update hu
    obtain ⟨old, -, -, rfl⟩ := Store.update_eq_ok.1 hu
    exact h.keep rfl rfl rfl hids rfl
  | delete hd => exact h.delete hd
  | setConfig => exact h.keep rfl rfl rfl rfl rfl
  | read hc =>
    cases c with
    | create | update | delete | setConfig => cases hc
    | _ => exact h.keep rfl rfl rfl rfl rfl
  | failed err => cases c <;> exact h.keep rfl rfl rfl rfl rfl

end Numbered

/-- **Numbers are fresh and ordered**: the creations of a run that succeed return 1, 2, 3 and so on,
and the stored numbers are, in ascending order, those that were returned and not deleted since. -/
theorem numbers_fresh_and_ordered (config : BudgetConfig) (maxHistory : Option Nat)
    (limiter : Option RateLimit.Limiter) (definitions : Option AttributeBook)
    (calls : List (Call × Clock)) :
    let t := run ⟨.empty config maxHistory, limiter, definitions⟩ calls
    createdIds t.events = List.range' 1 (creations t.events) ∧
    t.workshop.store.nextId = creations t.events + 1 ∧
    ∀ now, ∃ ids, (t.workshop.call now .ids).1 = .ok (.ids ids) ∧ ids.Pairwise (· < ·) ∧
      ∀ id, id ∈ ids ↔ id ∈ createdIds t.events ∧ id ∉ deletedIds t.events := by
  intro t
  have h : Numbered t.events t.workshop.store :=
    run_induction (numbered_empty config maxHistory) Numbered.step calls
  refine ⟨h.created, h.next, fun now => ?_⟩
  exact ⟨t.workshop.store.ids, rfl, h.sorted, h.stored⟩

end ItemBudget.Workshop
