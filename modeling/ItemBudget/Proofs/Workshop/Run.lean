import ItemBudget.Proofs.Outcome
import ItemBudget.Workshop.Basic
import Mathlib.Data.List.Induction

/-!
# Runs of a workshop

A call is a change or a question, with what it is about; a run is a list of calls, each at its time,
and the replies to them. `outcome_call` says once what a call can do to the store, and what holds of
the replies and the store of every run follows from it by `run_induction`.
-/

namespace ItemBudget.Workshop

/-- A call of a workshop. -/
inductive Call where
  | create (actor : String) (item : Item)
  | update (actor : String) (id : ItemId) (item : Item)
  | delete (actor : String) (id : ItemId)
  | setConfig (actor : String) (config : BudgetConfig)
  | item (id : ItemId)
  | ids
  | preview (item : Item)
  | budget (id : ItemId)
  | config
  | history
  | issues (item : Item)

/-- The answer to a call that succeeds. -/
inductive Answer where
  | created (id : ItemId) (budget : Breakdown)
  | updated (budget : Breakdown)
  | deleted (item : Item)
  | configured
  | item (item : Option Item)
  | ids (ids : List ItemId)
  | budget (budget : Breakdown)
  | config (config : BudgetConfig)
  | history (history : Journal.History)
  | issues (issues : List Issue)

/-- A call that changes nothing. -/
def Call.isRead : Call → Bool
  | create .. | update .. | delete .. | setConfig .. => false
  | _ => true

/-- The reply to a call, and the workshop after it. -/
def call (w : Workshop) (now : Clock) : Call → Except Error Answer × Workshop
  | .create actor item =>
    let r := w.create actor item now
    (r.1.map fun a => .created a.1 a.2, r.2)
  | .update actor id item =>
    let r := w.update actor id item now
    (r.1.map .updated, r.2)
  | .delete actor id =>
    let r := w.delete actor id now
    (r.1.map .deleted, r.2)
  | .setConfig actor config =>
    let r := w.setConfig actor config now
    (r.1.map fun _ => .configured, r.2)
  | .item id => (.ok (.item (w.store.item? id)), w)
  | .ids => (.ok (.ids w.store.ids), w)
  | .preview item => (.ok (.budget (w.preview item)), w)
  | .budget id => ((w.store.budget id).map .budget, w)
  | .config => (.ok (.config w.store.config), w)
  | .history => (.ok (.history w.store.history), w)
  | .issues item => (.ok (.issues (w.issues item)), w)

/-! ## What a call can do -/

/-- The replies that a call can have on a store, and the store after each. -/
inductive Outcome (s : Store) (now : Clock) : Call → Except Error Answer → Store → Prop
  | create (actor : String) (item : Item) :
    Outcome s now (.create actor item) (.ok (.created s.nextId (s.budgetOf item)))
      (s.create actor item now.civil).2
  | update {actor : String} {id : ItemId} {item : Item} {b : Breakdown} {s' : Store}
    (h : s.update actor id item now.civil = .ok (b, s')) :
    Outcome s now (.update actor id item) (.ok (.updated b)) s'
  | delete {actor : String} {id : ItemId} {item : Item} {s' : Store}
    (h : s.delete actor id now.civil = .ok (item, s')) :
    Outcome s now (.delete actor id) (.ok (.deleted item)) s'
  | setConfig {actor : String} {config : BudgetConfig}
    (h : Formula.validate config.expression = .ok ()) :
    Outcome s now (.setConfig actor config) (.ok .configured) { s with config }
  | read {c : Call} {a : Answer} (h : c.isRead = true) : Outcome s now c (.ok a) s
  | failed {c : Call} (e : Error) : Outcome s now c (.error e) s

/-- A change by an actor who is let in is the change of the store; any other leaves the store. -/
theorem change_cases {α : Type} (w : Workshop) (actor : String) (now : Clock)
    (f : Store → Except Error (α × Store)) :
    (∃ e, (w.change actor now f).1 = .error e ∧ (w.change actor now f).2.store = w.store) ∨
    ∃ a s, f w.store = .ok (a, s) ∧ (w.change actor now f).1 = .ok a ∧
      (w.change actor now f).2.store = s := by
  cases h : (w.change actor now f).1 with
  | error e => exact .inl ⟨e, rfl, store_change_of_error h⟩
  | ok a =>
    right
    have hs := w.store_letIn actor now
    unfold change at h ⊢
    generalize w.letIn actor now = r at h hs ⊢
    match r with
    | (.error _, _) => cases h
    | (.ok _, v) =>
      simp only at h hs ⊢
      rw [← hs]
      cases hf : f v.store with
      | error e => rw [hf] at h; cases h
      | ok p =>
        rw [hf] at h
        cases h
        exact ⟨p.1, p.2, rfl, rfl, rfl⟩

theorem outcome_change {α : Type} {w : Workshop} {actor : String} {now : Clock} {c : Call}
    {f : Store → Except Error (α × Store)} {answer : α → Answer}
    (h : ∀ {a s}, f w.store = .ok (a, s) → Outcome w.store now c (.ok (answer a)) s) :
    Outcome w.store now c ((w.change actor now f).1.map answer)
      (w.change actor now f).2.store := by
  rcases w.change_cases actor now f with ⟨e, hr, hs⟩ | ⟨a, s, hf, hr, hs⟩
  · rw [hr, hs]
    exact .failed e
  · rw [hr, hs]
    exact h hf

/-- **What a call can do** to the store. -/
theorem outcome_call (w : Workshop) (now : Clock) (c : Call) :
    Outcome w.store now c (w.call now c).1 (w.call now c).2.store := by
  cases c with
  | create actor item =>
    refine outcome_change fun h => ?_
    cases h
    exact .create actor item
  | update actor id item => exact outcome_change .update
  | delete actor id => exact outcome_change .delete
  | setConfig actor config =>
    rw [call, setConfig]
    cases hv : Formula.validate config.expression with
    | error fault => exact .failed _
    | ok u =>
      refine outcome_change fun h => ?_
      cases h
      exact .setConfig hv
  | budget id =>
    rw [call]
    cases w.store.budget id with
    | error e => exact .failed e
    | ok b => exact .read rfl
  | _ => exact .read rfl

/-! ## Runs -/

/-- A call, when it was made and the reply to it. -/
structure Event where
  call : Call
  now : Clock
  reply : Except Error Answer

/-- What happened in a run, and the workshop at its end. -/
structure Trace where
  events : List Event
  workshop : Workshop

/-- The run with one more call. -/
def Trace.extend (t : Trace) (c : Call) (now : Clock) : Trace :=
  let r := t.workshop.call now c
  ⟨t.events ++ [⟨c, now, r.1⟩], r.2⟩

/-- The run of a list of calls. -/
def run (w : Workshop) (calls : List (Call × Clock)) : Trace :=
  calls.foldl (fun t c => t.extend c.1 c.2) ⟨[], w⟩

theorem run_append (w : Workshop) (calls : List (Call × Clock)) (c : Call) (now : Clock) :
    run w (calls ++ [(c, now)]) = (run w calls).extend c now := by
  rw [run, List.foldl_append]
  rfl

theorem run_cons (w : Workshop) (c : Call) (now : Clock) (calls : List (Call × Clock)) :
    run w ((c, now) :: calls) =
      ⟨⟨c, now, (w.call now c).1⟩ :: (run (w.call now c).2 calls).events,
        (run (w.call now c).2 calls).workshop⟩ := by
  induction calls using List.reverseRecOn with
  | nil => rfl
  | append_singleton calls c' ih =>
    rw [← List.cons_append, run_append, run_append, ih]
    rfl

/-- What holds at the start and is kept by every outcome holds of every run. -/
theorem run_induction {w : Workshop} {p : List Event → Store → Prop} (init : p [] w.store)
    (step : ∀ {es s c now r s'}, p es s → Outcome s now c r s' → p (es ++ [⟨c, now, r⟩]) s')
    (calls : List (Call × Clock)) : p (run w calls).events (run w calls).workshop.store := by
  induction calls using List.reverseRecOn with
  | nil => exact init
  | append_singleton calls c ih =>
    rw [run_append]
    exact step ih (outcome_call _ c.2 c.1)

end ItemBudget.Workshop
