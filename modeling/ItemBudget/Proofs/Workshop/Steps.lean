import ItemBudget.Proofs.Workshop.Story

/-!
# The steps of a run

A step is a call with its reply, and the store on which it was made. `Step.record?` computes from a
step the record that it must leave: both costs are taken in the store of the step, of the item that
stands under the number and of the one that the step puts there. `Effect` says what a step makes of
the items, the configuration and the history; `effect_of_outcome` proves it of every outcome on a
store whose next number is free. `Path` follows a run from store to store.
-/

namespace ItemBudget.Workshop

open Journal (Action Record)

/-- A call, its reply and the store on which it was made. -/
structure Step where
  store : Store
  event : Event

/-- The steps of a run. -/
def steps (w : Workshop) : List (Call × Clock) → List Step
  | [] => []
  | (c, now) :: calls =>
    let r := w.call now c
    ⟨w.store, ⟨c, now, r.1⟩⟩ :: steps r.2 calls

namespace Step

/-- The record that an item under a number was created, updated or deleted in the step. -/
def entry (p : Step) (action : Action) (id : ItemId) (actor : String) : Record where
  item := id
  action := action
  actor := actor
  before := (p.store.item? id).map fun item => (budget item p.store.config).used
  after := (p.event.saved? id).map fun item => (budget item p.store.config).used
  seq := p.store.history.nextSeq
  time := p.event.now.civil

/-- The record of a step; only a change of an item that succeeds has one. -/
def record? (p : Step) : Option Record :=
  match p.event.call, p.event.reply with
  | .create actor _, .ok (.created id _) => some (p.entry .created id actor)
  | .update actor id _, .ok _ => some (p.entry .updated id actor)
  | .delete actor id, .ok _ => some (p.entry .deleted id actor)
  | _, _ => none

/-- The number under which a step changes what is stored. -/
def target? (p : Step) : Option ItemId := p.record?.map (·.item)

/-- The configuration that a step puts in force, if it does. -/
def configured? (p : Step) : Option BudgetConfig :=
  match p.event.call, p.event.reply with
  | .setConfig _ config, .ok _ => some config
  | _, _ => none

theorem eq_entry_of_record? {p : Step} {r : Record} (h : p.record? = some r) :
    r = p.entry r.action r.item r.actor := by
  unfold record? at h
  split at h
  · cases h; rfl
  · cases h; rfl
  · cases h; rfl
  · cases h

/-- A step with a record puts no configuration in force. -/
theorem configured?_of_record? {p : Step} {r : Record} (h : p.record? = some r) :
    p.configured? = none := by
  obtain ⟨s, c, now, reply⟩ := p
  cases c with
  | setConfig => cases h
  | _ => rfl

theorem seq_eq {p : Step} {r : Record} (h : p.record? = some r) :
    r.seq = p.store.history.nextSeq :=
  congrArg Record.seq (eq_entry_of_record? h)

theorem before_eq {p : Step} {r : Record} (h : p.record? = some r) :
    r.before = (p.store.item? r.item).map fun item => (budget item p.store.config).used :=
  congrArg (·.before) (eq_entry_of_record? h)

theorem after_eq {p : Step} {r : Record} (h : p.record? = some r) :
    r.after = (p.event.saved? r.item).map fun item => (budget item p.store.config).used :=
  congrArg (·.after) (eq_entry_of_record? h)

/-- A call that asks or fails leaves no record and no configuration. -/
theorem idle (s : Store) (now : Clock) {c : Call} {r : Except Error Answer}
    (h : c.isRead = true ∨ r.isOk = false) :
    (Step.mk s ⟨c, now, r⟩).record? = none ∧ (Step.mk s ⟨c, now, r⟩).configured? = none := by
  rcases h with h | h
  · cases c with
    | create | update | delete | setConfig => cases h
    | _ => exact ⟨rfl, rfl⟩
  · cases r with
    | ok a => cases h
    | error e => cases c <;> exact ⟨rfl, rfl⟩

end Step

/-! ## What a step makes of the store -/

/-- No item is stored under the next number or a later one. -/
def Store.Free (s : Store) : Prop := ∀ id, s.nextId ≤ id → s.item? id = none

theorem free_empty (config : BudgetConfig) (maxHistory : Option Nat) :
    (Store.empty config maxHistory).Free := fun _ _ => rfl

/-- What a step makes of the items, the configuration and the history. -/
structure Effect (p : Step) (s' : Store) : Prop where
  item? : ∀ id, s'.item? id = if p.target? = some id then p.event.saved? id else p.store.item? id
  config : s'.config = p.configured?.getD p.store.config
  history : s'.history =
    p.record?.elim p.store.history fun r => p.store.history.record r.toChange r.time
  sides : ∀ r ∈ p.record?,
    (r.before.isSome = true ↔ r.action ≠ .created) ∧ (r.after.isSome = true ↔ r.action ≠ .deleted)
  free : s'.Free

variable {p : Step} {s s' : Store} {c : Call} {now : Clock} {reply : Except Error Answer}

/-- A step without a record keeps the items and the history. -/
theorem Effect.of_none (hr : p.record? = none) (hitems : s'.items = p.store.items)
    (hconfig : s'.config = p.configured?.getD p.store.config)
    (hhistory : s'.history = p.store.history) (hfree : s'.Free) : Effect p s' := by
  refine ⟨fun id => ?_, hconfig, ?_, ?_, hfree⟩
  · rw [Step.target?, hr, Option.map_none, if_neg (nomatch ·)]
    unfold Store.item?
    rw [hitems]
  · rw [hr]; exact hhistory
  · rw [hr]; exact fun _ h => nomatch h

/-- A step with a record stores under the number of the record. -/
theorem Effect.of_some {r : Record} (hr : p.record? = some r)
    (hitem : ∀ id, s'.item? id = if id = r.item then p.event.saved? id else p.store.item? id)
    (hconfig : s'.config = p.configured?.getD p.store.config)
    (hhistory : s'.history = p.store.history.record r.toChange r.time)
    (hsides : (r.before.isSome = true ↔ r.action ≠ .created) ∧
      (r.after.isSome = true ↔ r.action ≠ .deleted)) (hfree : s'.Free) : Effect p s' := by
  refine ⟨fun id => ?_, hconfig, ?_, ?_, hfree⟩
  · simp only [Step.target?, hr, Option.map_some, Option.some_inj, hitem, eq_comm]
  · rw [hr]; exact hhistory
  · rw [hr]
    rintro _ ⟨⟩
    exact hsides

theorem effect_create (hs : s.Free) (actor : String) (item : Item) :
    Effect ⟨s, ⟨.create actor item, now, .ok (.created s.nextId (s.budgetOf item))⟩⟩
      (s.create actor item now.civil).2 := by
  have hnext : s.item? s.nextId = none := hs _ (Nat.le_refl _)
  have hitem := @Store.item?_create s actor item now.civil hnext
  have hr : (Step.mk s ⟨.create actor item, now, .ok (.created s.nextId (s.budgetOf item))⟩).record?
      = some ⟨⟨s.nextId, .created, actor, none, some (s.cost item)⟩, s.history.nextSeq, now.civil⟩ := by
    simp only [Step.record?, Step.entry, Event.saved?, hnext, if_pos, Option.map_none,
      Option.map_some, Store.cost, Store.budgetOf]
  refine .of_some hr (fun id => ?_) rfl rfl (by simp) (fun id hid => ?_)
  · rw [hitem]
    by_cases hid : id = s.nextId <;> simp [hid, Event.saved?]
  · have hlt : s.nextId < id := hid
    rw [hitem, if_neg (Nat.ne_of_gt hlt)]
    exact hs id (Nat.le_of_lt hlt)

theorem effect_update (hs : s.Free) {actor : String} {id : ItemId} {item : Item} {b : Breakdown}
    (h : s.update actor id item now.civil = .ok (b, s')) :
    Effect ⟨s, ⟨.update actor id item, now, .ok (.updated b)⟩⟩ s' := by
  have hitem := Store.item?_update h
  obtain ⟨old, hold, -, rfl⟩ := Store.update_eq_ok.1 h
  have hr : (Step.mk s ⟨.update actor id item, now, .ok (.updated b)⟩).record?
      = some ⟨⟨id, .updated, actor, some (s.cost old), some (s.cost item)⟩, s.history.nextSeq,
        now.civil⟩ := by
    simp only [Step.record?, Step.entry, Event.saved?, hold, if_pos, Option.map_some, Store.cost,
      Store.budgetOf]
  refine .of_some hr (fun id' => ?_) rfl rfl (by simp) (fun id' hid => ?_)
  · rw [hitem]
    by_cases hid : id' = id <;> simp [hid, Event.saved?]
  · have hne : id' ≠ id := by
      rintro rfl
      rw [hs id' hid] at hold
      cases hold
    rw [hitem, if_neg hne]
    exact hs id' hid

theorem effect_delete (hs : s.Free) {actor : String} {id : ItemId} {item : Item}
    (h : s.delete actor id now.civil = .ok (item, s')) :
    Effect ⟨s, ⟨.delete actor id, now, .ok (.deleted item)⟩⟩ s' := by
  have hitem := Store.item?_delete h
  obtain ⟨hold, rfl⟩ := Store.delete_eq_ok.1 h
  have hr : (Step.mk s ⟨.delete actor id, now, .ok (.deleted item)⟩).record?
      = some ⟨⟨id, .deleted, actor, some (s.cost item), none⟩, s.history.nextSeq, now.civil⟩ := by
    simp only [Step.record?, Step.entry, Event.saved?, hold, Option.map_some, Option.map_none,
      Store.cost, Store.budgetOf]
  refine .of_some hr (fun id' => ?_) rfl rfl (by simp) (fun id' hid => ?_)
  · rw [hitem]
    by_cases hid : id' = id <;> simp [hid, Event.saved?]
  · rw [hitem]
    split
    · rfl
    · exact hs id' hid

theorem Effect.history_of_none (h : Effect p s') (hr : p.record? = none) :
    s'.history = p.store.history := by
  rw [h.history, hr]
  rfl

theorem Effect.history_of_some (h : Effect p s') {r : Record} (hr : p.record? = some r) :
    s'.history = p.store.history.record r.toChange r.time := by
  rw [h.history, hr]
  rfl

/-- A question or a call that fails does nothing. -/
theorem effect_idle (hs : s.Free) (h : c.isRead = true ∨ reply.isOk = false) :
    Effect ⟨s, ⟨c, now, reply⟩⟩ s := by
  obtain ⟨hr, hc⟩ := Step.idle s now h
  exact .of_none hr rfl (by rw [hc]; rfl) rfl hs

/-- **What a step does**, whatever its call and its reply. -/
theorem effect_of_outcome (hs : s.Free) (h : Outcome s now c reply s') :
    Effect ⟨s, ⟨c, now, reply⟩⟩ s' := by
  cases h with
  | create actor item => exact effect_create hs actor item
  | update hu => exact effect_update hs hu
  | delete hd => exact effect_delete hs hd
  | setConfig => exact .of_none rfl rfl rfl rfl hs
  | read hc => exact effect_idle hs (.inl hc)
  | failed e => exact effect_idle hs (.inr rfl)

/-! ## Paths -/

/-- Steps that lead from one store to another. -/
inductive Path : Store → List Step → Store → Prop
  | nil (s : Store) : Path s [] s
  | cons {p : Step} {ps : List Step} {s s' : Store} (effect : Effect p s) (rest : Path s ps s') :
    Path p.store (p :: ps) s'

theorem path_steps (w : Workshop) (calls : List (Call × Clock)) (hs : w.store.Free) :
    Path w.store (steps w calls) (run w calls).workshop.store := by
  induction calls generalizing w with
  | nil => exact .nil _
  | cons c calls ih =>
    obtain ⟨c, now⟩ := c
    have heffect := effect_of_outcome hs (outcome_call w now c)
    rw [run_cons]
    exact .cons heffect (ih _ heffect.free)

namespace Path

variable {ps qs : List Step}

theorem append_iff : Path s (ps ++ qs) s' ↔ ∃ m, Path s ps m ∧ Path m qs s' := by
  constructor
  · intro h
    induction ps generalizing s with
    | nil => exact ⟨s, .nil s, h⟩
    | cons p ps ih =>
      cases h with
      | cons effect rest =>
        obtain ⟨m, hps, hqs⟩ := ih rest
        exact ⟨m, .cons effect hps, hqs⟩
  · rintro ⟨m, hps, hqs⟩
    induction hps with
    | nil => exact hqs
    | cons effect _ ih => exact .cons effect (ih hqs)

/-- A step of a path leads to a store from which the path goes on. -/
theorem at_step (h : Path s (qs ++ p :: ps) s') :
    Path s qs p.store ∧ ∃ m, Effect p m ∧ Path m ps s' := by
  obtain ⟨m, hqs, hps⟩ := append_iff.1 h
  cases hps with
  | cons effect rest => exact ⟨hqs, _, effect, rest⟩

theorem free (h : Path s ps s') (hs : s.Free) : s'.Free := by
  induction h with
  | nil => exact hs
  | cons effect _ ih => exact ih effect.free

/-- What no step stores under and no step configures stays as it is. -/
theorem frame (h : Path s ps s') {id : ItemId} (htarget : ∀ p ∈ ps, p.target? ≠ some id)
    (hconfig : ∀ p ∈ ps, p.configured? = none) :
    s'.item? id = s.item? id ∧ s'.config = s.config := by
  induction h with
  | nil => exact ⟨rfl, rfl⟩
  | cons effect _ ih =>
    rw [List.forall_mem_cons] at htarget hconfig
    obtain ⟨hitem, hc⟩ := ih htarget.2 hconfig.2
    rw [hitem, hc, effect.item?, effect.config, if_neg htarget.1, hconfig.1]
    exact ⟨rfl, rfl⟩

end Path

end ItemBudget.Workshop
