import ItemBudget.Proofs.Workshop.Refusal
import ItemBudget.Proofs.Workshop.Steps

/-!
# The budget of an item that nobody touches

A preview, the reply to a creation or an update and a later question all give the budget of the item
under the configuration in force. What is stored under a number changes only by an update or a
deletion under that number that succeeds: a creation takes a number under which nothing is stored.
-/

namespace ItemBudget.Workshop

variable {s s' : Store} {w : Workshop} {c : Call} {now : Clock} {reply : Except Error Answer}
  {id : ItemId} {item : Item} {actor : String}

/-! ## Replies -/

theorem reply_create (h : (w.letIn actor now).1 = .ok ()) :
    (w.call now (.create actor item)).1 = .ok (.created w.store.nextId (w.preview item)) := by
  rw [call, create, change_eq, h]
  rfl

theorem reply_update (h : (w.letIn actor now).1 = .ok ()) (hid : (w.store.item? id).isSome = true) :
    (w.call now (.update actor id item)).1 = .ok (.updated (w.preview item)) := by
  obtain ⟨old, hold⟩ := Option.isSome_iff_exists.1 hid
  rw [call, update, change_eq, h]
  simp only [Store.update, hold]
  rfl

theorem reply_budget (h : w.store.item? id = some item) (now : Clock) :
    (w.call now (.budget id)).1 = .ok (.budget (w.preview item)) := by
  simp only [call, Store.budget, h]
  rfl

/-- A call that saves an item stores it, and its reply holds the item's budget. -/
theorem stored_of_outcome (hs : s.Free) (h : Outcome s now c reply s')
    (hsaved : (Event.mk c now reply).saved? id = some item) :
    s'.item? id = some item ∧ s'.config = s.config ∧
      (reply = .ok (.created id (s.budgetOf item)) ∨ reply = .ok (.updated (s.budgetOf item))) := by
  cases h with
  | create actor saved =>
    obtain ⟨hid, heq⟩ := Option.ite_none_right_eq_some.1 hsaved
    cases heq
    subst hid
    rw [Store.item?_create (hs _ (Nat.le_refl _)), if_pos rfl]
    exact ⟨rfl, rfl, .inl rfl⟩
  | @update actor id' saved b _ hu =>
    obtain ⟨hid, heq⟩ := Option.ite_none_right_eq_some.1 hsaved
    cases heq
    subst hid
    rw [Store.item?_update hu, if_pos rfl]
    obtain ⟨old, -, rfl, rfl⟩ := Store.update_eq_ok.1 hu
    exact ⟨rfl, rfl, .inr rfl⟩
  | delete hd => cases hsaved
  | setConfig => cases hsaved
  | read hc =>
    cases c with
    | create | update => cases hc
    | _ => cases hsaved
  | failed e => cases c <;> cases hsaved

/-! ## What touches an item -/

namespace Event

/-- The event changed the configuration, or what was stored under a number. -/
def disturbs (id : ItemId) (e : Event) : Bool :=
  e.reply.isOk && match e.call with
    | .setConfig .. => true
    | .update _ id' _ | .delete _ id' => id' = id
    | _ => false

end Event

theorem kept_of_outcome (hs : s.Free) (hitem : s.item? id = some item)
    (h : Outcome s now c reply s') (hd : (Event.mk c now reply).disturbs id = false) :
    s'.item? id = some item ∧ s'.config = s.config := by
  cases h with
  | create actor saved =>
    -- nothing is stored under the next number, so it is not the one asked about
    have hne : id ≠ s.nextId := by
      rintro rfl
      rw [hs _ (Nat.le_refl _)] at hitem
      cases hitem
    rw [Store.item?_create (hs _ (Nat.le_refl _)), if_neg hne]
    exact ⟨hitem, rfl⟩
  | update hu =>
    have hne := Ne.symm (of_decide_eq_false hd)
    rw [Store.item?_update hu, if_neg hne]
    obtain ⟨old, -, -, rfl⟩ := Store.update_eq_ok.1 hu
    exact ⟨hitem, rfl⟩
  | delete hu =>
    have hne := Ne.symm (of_decide_eq_false hd)
    rw [Store.item?_delete hu, if_neg hne]
    obtain ⟨-, rfl⟩ := Store.delete_eq_ok.1 hu
    exact ⟨hitem, rfl⟩
  | setConfig => cases hd
  | read => exact ⟨hitem, rfl⟩
  | failed => exact ⟨hitem, rfl⟩

/-- What is stored stays through a run in which no event disturbs it. -/
theorem kept_run (hs : w.store.Free) (hitem : w.store.item? id = some item)
    (calls : List (Call × Clock)) (hd : ∀ e ∈ (run w calls).events, e.disturbs id = false) :
    (run w calls).workshop.store.item? id = some item ∧
      (run w calls).workshop.store.config = w.store.config := by
  -- the free numbers belong to the invariant, because a creation needs them to keep the item
  have hrun := run_induction (w := w) (p := fun es s => s.Free ∧
    ((∀ e ∈ es, e.disturbs id = false) → s.item? id = some item ∧ s.config = w.store.config))
    ⟨hs, fun _ => ⟨hitem, rfl⟩⟩ ?step calls
  · exact hrun.2 hd
  case step =>
    rintro es s c now r s' ⟨hs, ih⟩ ho
    refine ⟨(effect_of_outcome hs ho).free, fun hd => ?_⟩
    obtain ⟨hes, he⟩ := List.forall_mem_append.1 hd
    obtain ⟨hitem, hconfig⟩ := ih hes
    rw [← hconfig]
    exact kept_of_outcome hs hitem ho (he _ List.mem_cons_self)

theorem free_run (hs : w.store.Free) (calls : List (Call × Clock)) :
    (run w calls).workshop.store.Free :=
  (path_steps w calls hs).free hs

/-- **Preview, save and later questions agree**: a preview shows the budget that a creation or an
update replies with, and that the item then has until its number or the configuration is changed. -/
theorem budgets_agree (config : BudgetConfig) (maxHistory : Option Nat)
    (limiter : Option RateLimit.Limiter) (definitions : Option AttributeBook)
    (earlier : List (Call × Clock)) (item : Item) :
    let w := (run ⟨.empty config maxHistory, limiter, definitions⟩ earlier).workshop
    let b := w.preview item
    (∀ now, w.call now (.preview item) = (.ok (.budget b), w)) ∧
    (∀ now actor, (w.letIn actor now).1 = .ok () →
      (w.call now (.create actor item)).1 = .ok (.created w.store.nextId b) ∧
      ∀ id, (w.store.item? id).isSome = true →
        (w.call now (.update actor id item)).1 = .ok (.updated b)) ∧
    ∀ now c id, (Event.mk c now (w.call now c).1).saved? id = some item →
      ((w.call now c).1 = .ok (.created id b) ∨ (w.call now c).1 = .ok (.updated b)) ∧
      ∀ later, let t := run (w.call now c).2 later
        (∀ e ∈ t.events, e.disturbs id = false) →
        ∀ now', (t.workshop.call now' (.budget id)).1 = .ok (.budget b) := by
  intro w b
  refine ⟨fun now => rfl, fun now actor h => ⟨reply_create h, fun id hid => reply_update h hid⟩, ?_⟩
  intro now c id hsaved
  have hfree : w.store.Free := free_run (free_empty config maxHistory) earlier
  have houtcome := outcome_call w now c
  obtain ⟨hitem, hconfig, hreply⟩ := stored_of_outcome hfree houtcome hsaved
  refine ⟨hreply, ?_⟩
  intro later t hd now'
  have hfree' := (effect_of_outcome hfree houtcome).free
  obtain ⟨hlast, hsame⟩ := kept_run hfree' hitem later hd
  have hb : t.workshop.preview item = b :=
    congrArg (ItemBudget.budget item) (hsame.trans hconfig)
  rw [reply_budget hlast, hb]

/-- An item keeps its budget while another is created and deleted, and while an update of a third
fails. -/
theorem previewed_budget_stays :
    let w := new default ⟨none, some 1⟩
    let now : Clock := ⟨0, ⟨0, 0⟩⟩
    let edge : Item := ⟨"Edge", "RARE", "Sword.IRON", []⟩
    let later : List (Call × Clock) := [(.create "bo" edge, now), (.delete "bo" 2, now),
      (.update "bo" 9 edge, now), (.preview edge, now)]
    let r := w.call now (.create "ana" edge)
    r.1 = .ok (.created 1 (w.preview edge)) ∧
      ((run r.2 later).workshop.call now (.budget 1)).1 = .ok (.budget (w.preview edge)) := by
  intro w now edge later r
  obtain ⟨-, hsave, hlater⟩ := budgets_agree default (some 1) none none [] edge
  have huntouched : ∀ e ∈ (run r.2 later).events, e.disturbs 1 = false := by decide
  exact ⟨(hsave now "ana" rfl).1,
    (hlater now (.create "ana" edge) 1 rfl).2 later huntouched now⟩

end ItemBudget.Workshop
