import ItemBudget.Proofs.Workshop.Items
import ItemBudget.Proofs.Workshop.Run

/-!
# The store and its history

In a run whose history drops nothing, the history tells what became of every item: it was created,
then updated any number of times, then deleted or not. `Life` relates the records of an item with
what is stored under its number, `Story` is the invariant of a run, and `story_run` says that it
holds of every run from an empty store.
-/

namespace ItemBudget.Workshop

open Journal (Action History)

/-! ## What the replies tell -/

namespace Event

/-- The event is a change of an item that succeeded. -/
def isChange (e : Event) : Bool :=
  match e.call with
  | .create .. | .update .. | .delete .. => e.reply.isOk
  | _ => false

/-- The number that a creation returned. -/
def created? (e : Event) : Option ItemId :=
  match e.call, e.reply with
  | .create .., .ok (.created id _) => some id
  | _, _ => none

/-- The item that the event stored under a number, if it did. -/
def saved? (id : ItemId) (e : Event) : Option Item :=
  match e.call, e.reply with
  | .create _ item, .ok (.created id' _) => if id' = id then some item else none
  | .update _ id' item, .ok _ => if id' = id then some item else none
  | _, _ => none

end Event

/-- The numbers that creations returned, in order. -/
def createdIds (es : List Event) : List ItemId := es.filterMap Event.created?

/-- The item of the last creation or update under a number that succeeded. -/
def lastSaved (id : ItemId) (es : List Event) : Option Item :=
  (es.filterMap (Event.saved? id)).getLast?

/-- The actions in the records of an item, oldest first. -/
def actionsOf (h : History) (id : ItemId) : List Action := (h.recordsFor id).map (·.action)

theorem mem_createdIds_concat {es : List Event} {e : Event} {id : ItemId} :
    id ∈ createdIds (es ++ [e]) ↔ id ∈ createdIds es ∨ e.created? = some id := by
  unfold createdIds
  rw [List.filterMap_append, List.mem_append, List.mem_filterMap, List.mem_filterMap]
  simp only [List.mem_singleton, exists_eq_left]

theorem lastSaved_concat {es : List Event} {e : Event} {id : ItemId} :
    lastSaved id (es ++ [e]) = (e.saved? id).or (lastSaved id es) := by
  unfold lastSaved
  rw [List.filterMap_append, List.getLast?_append]
  congr 1
  cases h : e.saved? id with
  | none => rw [List.filterMap_cons_none h]; rfl
  | some i => rw [List.filterMap_cons_some h]; rfl

theorem actionsOf_record {h : History} (hl : h.limit = none) (change : Journal.Change)
    (time : Time.Instant) (id : ItemId) :
    actionsOf (h.record change time) id =
      if change.item = id then actionsOf h id ++ [change.action] else actionsOf h id := by
  unfold actionsOf
  rw [History.recordsFor_record hl]
  split
  · rw [List.map_append, List.map_singleton]
  · rfl

theorem size_record {h : History} (hl : h.limit = none) (change : Journal.Change)
    (time : Time.Instant) : (h.record change time).size = h.size + 1 := by
  unfold History.size
  rw [History.records_record change time hl, List.length_append, List.length_singleton]

/-! ## The life of an item -/

/-- The item saved last under a number, the actions on record, and what is stored. -/
inductive Life : Option Item → List Action → Option Item → Prop
  | unborn : Life none [] none
  | alive (n : Nat) (item : Item) :
    Life (some item) (.created :: List.replicate n .updated) (some item)
  | dead (n : Nat) (saved : Option Item) :
    Life saved (.created :: (List.replicate n .updated ++ [.deleted])) none

namespace Life

variable {saved stored : Option Item} {actions : List Action} {old : Item}

theorem eq_none_of_nil (h : Life saved [] stored) : stored = none := by
  cases h
  rfl

theorem updated (h : Life saved actions (some old)) (item : Item) :
    Life (some item) (actions ++ [.updated]) (some item) := by
  cases h with
  | alive n =>
    rw [List.cons_append, ← List.replicate_succ']
    exact .alive (n + 1) item

theorem deleted (h : Life saved actions (some old)) :
    Life saved (actions ++ [.deleted]) none := by
  cases h with
  | alive n => exact .dead n _

theorem saved_eq {item : Item} (h : Life saved actions (some item)) : saved = some item := by
  cases h
  rfl

/-- The records are a creation, then updates, then at most one deletion. -/
theorem shape (h : Life saved actions stored) (hne : actions ≠ []) :
    ∃ n tail, (tail = [] ∨ tail = [.deleted]) ∧
      actions = .created :: (List.replicate n .updated ++ tail) := by
  cases h with
  | unborn => exact absurd rfl hne
  | alive n => exact ⟨n, [], .inl rfl, by rw [List.append_nil]⟩
  | dead n => exact ⟨n, [.deleted], .inr rfl, rfl⟩

theorem isSome_iff (h : Life saved actions stored) :
    stored.isSome = true ↔ ∃ a, actions.getLast? = some a ∧ a ≠ .deleted := by
  cases h with
  | unborn => exact ⟨(nomatch ·), fun ⟨_, h, _⟩ => nomatch h⟩
  | alive n =>
    refine iff_of_true rfl ⟨if n = 0 then .created else .updated, ?_, by split <;> decide⟩
    rw [List.getLast?_cons, List.getLast?_replicate]
    split <;> rfl
  | dead n =>
    refine iff_of_false (nomatch ·) ?_
    rintro ⟨a, ha, hne⟩
    rw [← List.cons_append, List.getLast?_concat] at ha
    exact hne (Option.some.inj ha).symm

end Life

/-! ## The invariant -/

/-- What the replies, the history and the items of a run have to do with each other. -/
structure Story (es : List Event) (s : Store) : Prop where
  unlimited : s.history.limit = none
  size : s.history.size = es.countP Event.isChange
  created : ∀ id, id ∈ createdIds es ↔ 1 ≤ id ∧ id < s.nextId
  next_pos : 1 ≤ s.nextId
  born : ∀ id, actionsOf s.history id = [] ↔ id ∉ createdIds es
  life : ∀ id, Life (lastSaved id es) (actionsOf s.history id) (s.item? id)

theorem story_empty (config : BudgetConfig) : Story [] (.empty config none) where
  unlimited := rfl
  size := rfl
  created _ := ⟨(nomatch ·), fun h => absurd h.1 (Nat.not_le.2 h.2)⟩
  next_pos := Nat.le_refl 1
  born _ := ⟨fun _ => List.not_mem_nil, fun _ => rfl⟩
  life _ := .unborn

variable {es : List Event} {e : Event} {s s' : Store}

namespace Story

/-- An event that neither creates nor saves nor changes, on the same items and history. -/
theorem keep (h : Story es s) (hchange : e.isChange = false) (hcreated : e.created? = none)
    (hsaved : ∀ id, e.saved? id = none) (hitems : s'.items = s.items)
    (hhistory : s'.history = s.history) (hnext : s'.nextId = s.nextId) : Story (es ++ [e]) s' := by
  have hids : ∀ id, id ∈ createdIds (es ++ [e]) ↔ id ∈ createdIds es := by
    intro id
    rw [mem_createdIds_concat, hcreated]
    simp
  refine ⟨?_, ?_, ?_, ?_, ?_, ?_⟩
  · rw [hhistory]; exact h.unlimited
  · rw [hhistory, h.size, List.countP_append, List.countP_singleton, hchange]; rfl
  · intro id; rw [hids, hnext]; exact h.created id
  · rw [hnext]; exact h.next_pos
  · intro id; rw [hids, hhistory]; exact h.born id
  · intro id
    rw [lastSaved_concat, hsaved, Option.none_or, hhistory]
    unfold Store.item?
    rw [hitems]
    exact h.life id

/-- An event that records a change of one item, on the same other items. -/
theorem record (h : Story es s) (change : Journal.Change) {time : Time.Instant}
    (hchange : e.isChange = true) (hhistory : s'.history = s.history.record change time)
    (hcreated : ∀ id, id ∈ createdIds (es ++ [e]) ↔ 1 ≤ id ∧ id < s'.nextId)
    (hmem : change.item ∈ createdIds (es ++ [e]))
    (hother : ∀ id, id ≠ change.item →
      e.created? ≠ some id ∧ e.saved? id = none ∧ s'.item? id = s.item? id)
    (hlife : Life (lastSaved change.item (es ++ [e]))
      (actionsOf s.history change.item ++ [change.action]) (s'.item? change.item)) :
    Story (es ++ [e]) s' where
  unlimited := by
    rw [hhistory]
    exact h.unlimited
  size := by
    rw [hhistory, size_record h.unlimited, h.size, List.countP_append, List.countP_singleton,
      hchange]
    rfl
  created := hcreated
  next_pos := by
    obtain ⟨hpos, hlt⟩ := (hcreated _).1 hmem
    exact Nat.le_trans hpos (Nat.le_of_lt hlt)
  born id := by
    rw [hhistory, actionsOf_record h.unlimited]
    split
    · next hid =>
      subst hid
      exact iff_of_false (List.append_ne_nil_of_right_ne_nil _ (List.cons_ne_nil _ _))
        (not_not_intro hmem)
    · next hid =>
      rw [h.born, mem_createdIds_concat, or_iff_left (hother id (Ne.symm hid)).1]
  life id := by
    rw [hhistory, actionsOf_record h.unlimited]
    split
    · next hid =>
      subst hid
      exact hlife
    · next hid =>
      obtain ⟨-, hsaved, hitem⟩ := hother id (Ne.symm hid)
      rw [lastSaved_concat, hsaved, Option.none_or, hitem]
      exact h.life id

/-- Nothing was ever stored under the number that the next item gets. -/
theorem nextId_unborn (h : Story es s) :
    actionsOf s.history s.nextId = [] ∧ s.item? s.nextId = none := by
  have hnil : actionsOf s.history s.nextId = [] := by
    rw [h.born, h.created]
    exact fun ⟨_, hlt⟩ => Nat.lt_irrefl _ hlt
  have hlife := h.life s.nextId
  rw [hnil] at hlife
  exact ⟨hnil, hlife.eq_none_of_nil⟩

/-- What is stored under a number was created. -/
theorem mem_createdIds (h : Story es s) {id : ItemId} {item : Item} (hi : s.item? id = some item) :
    id ∈ createdIds es := by
  by_contra hid
  have hl := h.life id
  rw [(h.born id).2 hid, hi] at hl
  exact nomatch hl.eq_none_of_nil

end Story

theorem story_create (h : Story es s) (actor : String) (item : Item) (now : Clock) :
    Story (es ++ [⟨.create actor item, now, .ok (.created s.nextId (s.budgetOf item))⟩])
      (s.create actor item now.civil).2 := by
  -- `created` makes the number fresh, and so the item stands alone and starts its records
  obtain ⟨hnil, hfree⟩ := h.nextId_unborn
  have hstep : ∀ {k n : Nat}, 1 ≤ n → ((1 ≤ k ∧ k < n) ∨ n = k ↔ 1 ≤ k ∧ k < n + 1) := by
    omega
  refine h.record ⟨s.nextId, .created, actor, none, some (s.cost item)⟩ rfl rfl ?_
    (mem_createdIds_concat.2 (.inr rfl)) ?_ ?_
  · intro id
    rw [mem_createdIds_concat, h.created, Event.created?, Option.some_inj]
    exact hstep h.next_pos
  · intro id hid
    refine ⟨fun heq => hid (Option.some.inj heq).symm, if_neg (Ne.symm hid), ?_⟩
    rw [Store.item?_create hfree, if_neg hid]
  · rw [lastSaved_concat, Store.item?_create hfree, if_pos rfl, hnil]
    simp only [Event.saved?, if_pos, Option.some_or]
    exact .alive 0 item

theorem story_update (h : Story es s) {actor : String} {id : ItemId} {item : Item} {now : Clock}
    {b : Breakdown} (hu : s.update actor id item now.civil = .ok (b, s')) :
    Story (es ++ [⟨.update actor id item, now, .ok (.updated b)⟩]) s' := by
  -- the number needs no freshness: what is stored under it was created before
  have hitems := Store.item?_update hu
  obtain ⟨old, hold, -, rfl⟩ := Store.update_eq_ok.1 hu
  have hlife := h.life id
  rw [hold] at hlife
  refine h.record ⟨id, .updated, actor, some (s.cost old), some (s.cost item)⟩ rfl rfl ?_
    (mem_createdIds_concat.2 (.inl (h.mem_createdIds hold))) ?_ ?_
  · intro id'
    rw [mem_createdIds_concat, h.created]
    exact or_iff_left (nomatch ·)
  · intro id' hid
    refine ⟨(nomatch ·), if_neg (Ne.symm hid), ?_⟩
    rw [hitems, if_neg hid]
  · rw [lastSaved_concat, hitems, if_pos rfl]
    simp only [Event.saved?, if_pos, Option.some_or]
    exact hlife.updated item

theorem story_delete (h : Story es s) {actor : String} {id : ItemId} {item : Item} {now : Clock}
    (hd : s.delete actor id now.civil = .ok (item, s')) :
    Story (es ++ [⟨.delete actor id, now, .ok (.deleted item)⟩]) s' := by
  have hitems := Store.item?_delete hd
  obtain ⟨hold, rfl⟩ := Store.delete_eq_ok.1 hd
  have hlife := h.life id
  rw [hold] at hlife
  refine h.record ⟨id, .deleted, actor, some (s.cost item), none⟩ rfl rfl ?_
    (mem_createdIds_concat.2 (.inl (h.mem_createdIds hold))) ?_ ?_
  · intro id'
    rw [mem_createdIds_concat, h.created]
    exact or_iff_left (nomatch ·)
  · intro id' hid
    refine ⟨(nomatch ·), rfl, ?_⟩
    rw [hitems, if_neg hid]
  · rw [lastSaved_concat, hitems, if_pos rfl]
    exact hlife.deleted

/-- A call that is no change of an item leaves the story as it is. -/
theorem story_read (h : Story es s) {c : Call} {now : Clock} {a : Answer} (hc : c.isRead = true) :
    Story (es ++ [⟨c, now, .ok a⟩]) s := by
  cases c with
  | create | update | delete | setConfig => cases hc
  | _ => exact h.keep rfl rfl (fun _ => rfl) rfl rfl rfl

theorem story_failed (h : Story es s) (c : Call) (now : Clock) (err : Error) :
    Story (es ++ [⟨c, now, .error err⟩]) s := by
  cases c <;> exact h.keep rfl rfl (fun _ => rfl) rfl rfl rfl

theorem story_step {c : Call} {now : Clock} {r : Except Error Answer} (h : Story es s)
    (ho : Outcome s now c r s') : Story (es ++ [⟨c, now, r⟩]) s' := by
  cases ho with
  | create actor item => exact story_create h actor item now
  | update hu => exact story_update h hu
  | delete hd => exact story_delete h hd
  | setConfig => exact h.keep rfl rfl (fun _ => rfl) rfl rfl rfl
  | read hc => exact story_read h hc
  | failed err => exact story_failed h c now err

/-- **The invariant of runs** from an empty store whose history has no limit. -/
theorem story_run (config : BudgetConfig) (limiter : Option RateLimit.Limiter)
    (definitions : Option AttributeBook) (calls : List (Call × Clock)) :
    let t := run ⟨.empty config none, limiter, definitions⟩ calls
    Story t.events t.workshop.store :=
  run_induction (story_empty config) story_step calls

theorem getLast?_actionsOf (h : History) (id : ItemId) :
    (actionsOf h id).getLast? = (h.latestFor? id).map (·.action) := by
  unfold actionsOf
  rw [List.getLast?_map, History.latestFor?_eq]

/-- **The store and its history tell the same story**, in every run of a fresh workshop whose
history has no limit. -/
theorem history_tells_store (config : BudgetConfig) (limiter : Option RateLimit.Limiter)
    (definitions : Option AttributeBook) (calls : List (Call × Clock)) :
    let t := run ⟨.empty config none, limiter, definitions⟩ calls
    let s := t.workshop.store
    s.history.size = t.events.countP Event.isChange ∧
    (∀ id ∈ createdIds t.events, ∃ n tail, (tail = [] ∨ tail = [.deleted]) ∧
      (s.history.recordsFor id).map (·.action) =
        .created :: (List.replicate n .updated ++ tail)) ∧
    (∀ id, id ∉ createdIds t.events → s.history.recordsFor id = []) ∧
    ∀ id,
      ((s.item? id).isSome = true ↔
        ∃ r, s.history.latestFor? id = some r ∧ r.action ≠ .deleted) ∧
      ∀ item, s.item? id = some item → lastSaved id t.events = some item := by
  intro t s
  have h : Story t.events s := story_run config limiter definitions calls
  refine ⟨h.size, ?_, ?_, fun id => ⟨?_, ?_⟩⟩
  · intro id hid
    exact (h.life id).shape fun hnil => (h.born id).1 hnil hid
  · intro id hid
    exact List.map_eq_nil_iff.1 ((h.born id).2 hid)
  · rw [(h.life id).isSome_iff, getLast?_actionsOf]
    constructor
    · rintro ⟨a, ha, hne⟩
      obtain ⟨r, hr, rfl⟩ := Option.map_eq_some_iff.1 ha
      exact ⟨r, hr, hne⟩
    · rintro ⟨r, hr, hne⟩
      exact ⟨r.action, by rw [hr, Option.map_some], hne⟩
  · intro item hitem
    have hlife := h.life id
    rw [hitem] at hlife
    exact hlife.saved_eq

end ItemBudget.Workshop
