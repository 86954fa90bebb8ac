import ItemBudget.Proofs.Workshop.Run

/-!
# Calls that fail

A call that fails leaves the store, and of the limiter it can change only the buckets; a question
changes nothing. Where nothing is limited, a failed call changes nothing either, and so failed calls
and questions can be left out of a run: `run_filter`.
-/

namespace ItemBudget.Workshop

variable {w : Workshop} {actor : String} {now : Clock} {c : Call} {e : Error}

/-! ## What the limiter keeps -/

/-- Two workshops with the same definitions and the same limit. -/
def SameRules (v w : Workshop) : Prop :=
  v.definitions = w.definitions ∧ v.limiter.map (·.limit) = w.limiter.map (·.limit)

theorem sameRules_letIn (w : Workshop) (actor : String) (now : Clock) :
    SameRules (w.letIn actor now).2 w := by
  unfold letIn
  cases hl : w.limiter with
  | none => exact ⟨rfl, rfl⟩
  | some l =>
    refine ⟨rfl, ?_⟩
    simp only [RateLimit.Limiter.check, RateLimit.Limiter.sweepAbove, RateLimit.Limiter.sweep, hl,
      Option.map_some]
    split <;> rfl

theorem rateLimited_of_letIn (h : (w.letIn actor now).1 = .error e) :
    ∃ wait, e = .rateLimited actor wait := by
  unfold letIn at h
  split at h
  · cases h
  · next l _ =>
    generalize (l.sweepAbove sweepAbove now.steady).2.check actor now.steady = r at h
    obtain ⟨verdict, l'⟩ := r
    cases verdict with
    | allowed n requests => cases h
    | limited wait requests =>
      cases h
      exact ⟨wait, rfl⟩

/-! ## Changes -/

section Change

variable {α : Type} {f : Store → Except Error (α × Store)}

/-- A change succeeds when the limiter lets the actor in and the store allows it. -/
theorem change_eq (w : Workshop) (actor : String) (now : Clock)
    (f : Store → Except Error (α × Store)) :
    w.change actor now f =
      match (w.letIn actor now).1, f w.store with
      | .error e, _ => (.error e, (w.letIn actor now).2)
      | .ok _, .error e => (.error e, (w.letIn actor now).2)
      | .ok _, .ok (a, s) => (.ok a, { (w.letIn actor now).2 with store := s }) := by
  rw [← w.store_letIn actor now]
  unfold change
  generalize w.letIn actor now = r
  match r with
  | (.error e, v) => rfl
  | (.ok _, v) =>
    cases hf : f v.store with
    | error e => simp only [hf]
    | ok p => simp only [hf]

theorem sameRules_change : SameRules (w.change actor now f).2 w := by
  have hrules := w.sameRules_letIn actor now
  rw [change_eq]
  split
  · exact hrules
  · exact hrules
  · exact hrules

theorem limiter_change :
    (w.change actor now f).2.limiter = (w.letIn actor now).2.limiter := by
  rw [change_eq]
  split
  · rfl
  · rfl
  · rfl

/-- A change fails at the limiter or at the store. -/
theorem change_error (h : (w.change actor now f).1 = .error e) :
    (w.letIn actor now).1 = .error e ∨ f w.store = .error e := by
  rw [change_eq] at h
  cases hl : (w.letIn actor now).1 with
  | error e' =>
    rw [hl] at h
    cases h
    exact .inl rfl
  | ok u =>
    cases hf : f w.store with
    | error e' =>
      rw [hl, hf] at h
      cases h
      exact .inr rfl
    | ok p =>
      rw [hl, hf] at h
      cases h

theorem change_ne_invalidFormula {fault : Formula.Fault}
    (hf : f w.store ≠ .error (.invalidFormula fault)) :
    (w.change actor now f).1 ≠ .error (.invalidFormula fault) := by
  intro h
  rcases change_error h with he | he
  · obtain ⟨wait, he'⟩ := rateLimited_of_letIn he
    cases he'
  · exact hf he

end Change

/-! ## Calls -/

theorem sameRules_call (w : Workshop) (now : Clock) (c : Call) : SameRules (w.call now c).2 w := by
  cases c with
  | create => exact sameRules_change
  | update => exact sameRules_change
  | delete => exact sameRules_change
  | setConfig actor config =>
    rw [call, setConfig]
    cases Formula.validate config.expression with
    | error fault => exact ⟨rfl, rfl⟩
    | ok u => exact sameRules_change
  | _ => exact ⟨rfl, rfl⟩

theorem call_of_isRead (hc : c.isRead = true) : (w.call now c).2 = w := by
  cases c with
  | create | update | delete | setConfig => cases hc
  | _ => rfl

theorem store_call_of_error (h : (w.call now c).1 = .error e) :
    (w.call now c).2.store = w.store := by
  have ho := outcome_call w now c
  rw [h] at ho
  generalize (w.call now c).2.store = s at ho ⊢
  cases ho
  rfl

theorem update_error {s : Store} {id : ItemId} {item : Item} {time : Time.Instant}
    (h : s.update actor id item time = .error e) : e = .itemNotFound id := by
  unfold Store.update at h
  split at h
  · cases h; rfl
  · cases h

theorem delete_error {s : Store} {id : ItemId} {time : Time.Instant}
    (h : s.delete actor id time = .error e) : e = .itemNotFound id := by
  unfold Store.delete at h
  split at h
  · cases h; rfl
  · cases h

theorem budget_error {s : Store} {id : ItemId} (h : s.budget id = .error e) :
    e = .itemNotFound id := by
  unfold Store.budget at h
  split at h
  · cases h; rfl
  · cases h

/-- **Why a call fails**: its actor is not let in, no item is stored under its number, or its
formula is not valid, and then the limiter is not asked. -/
theorem call_error (h : (w.call now c).1 = .error e) :
    (∃ actor, (w.letIn actor now).1 = .error e) ∨ (∃ id, e = .itemNotFound id) ∨
      (∃ fault, e = .invalidFormula fault) ∧ (w.call now c).2 = w := by
  cases c with
  | create actor item =>
    rcases change_error (map_eq_error.1 h) with he | he
    · exact .inl ⟨actor, he⟩
    · cases he
  | update actor id item =>
    rcases change_error (map_eq_error.1 h) with he | he
    · exact .inl ⟨actor, he⟩
    · exact .inr (.inl ⟨id, update_error he⟩)
  | delete actor id =>
    rcases change_error (map_eq_error.1 h) with he | he
    · exact .inl ⟨actor, he⟩
    · exact .inr (.inl ⟨id, delete_error he⟩)
  | setConfig actor config =>
    rw [call, setConfig] at h ⊢
    cases hv : Formula.validate config.expression with
    | error fault =>
      rw [hv] at h
      cases h
      exact .inr (.inr ⟨⟨fault, rfl⟩, rfl⟩)
    | ok u =>
      rw [hv] at h
      rcases change_error (map_eq_error.1 h) with he | he
      · exact .inl ⟨actor, he⟩
      · cases he
  | budget id => exact .inr (.inl ⟨id, budget_error (map_eq_error.1 h)⟩)
  | _ => cases h

/-- A configuration that is not valid is refused before the limiter is asked. -/
theorem call_of_invalidFormula {fault : Formula.Fault}
    (h : (w.call now c).1 = .error (.invalidFormula fault)) : (w.call now c).2 = w := by
  rcases call_error h with ⟨actor, he⟩ | ⟨id, he⟩ | ⟨-, hw⟩
  · obtain ⟨wait, he'⟩ := rateLimited_of_letIn he
    cases he'
  · cases he
  · exact hw

/-- Where nothing is limited, a call that fails changes nothing. -/
theorem call_of_error_of_unlimited (hw : w.limiter = none) (h : (w.call now c).1 = .error e) :
    (w.call now c).2 = w := by
  obtain ⟨hd, hl⟩ := w.sameRules_call now c
  have hs := store_call_of_error h
  rw [hw, Option.map_none, Option.map_eq_none_iff, ← hw] at hl
  generalize (w.call now c).2 = v at hd hl hs
  cases v
  cases w
  cases hd
  cases hl
  cases hs
  rfl

/-! ## Runs without the calls that do nothing -/

namespace Event

/-- The event is a change, of an item or of the configuration, that succeeded. -/
def takesEffect (e : Event) : Bool := !e.call.isRead && e.reply.isOk

/-- The call of an event and its time. -/
def request (e : Event) : Call × Clock := (e.call, e.now)

end Event

theorem limiter_run (hw : w.limiter = none) (calls : List (Call × Clock)) :
    (run w calls).workshop.limiter = none := by
  induction calls using List.reverseRecOn with
  | nil => exact hw
  | append_singleton calls c ih =>
    obtain ⟨-, hl⟩ := (run w calls).workshop.sameRules_call c.2 c.1
    rw [ih, Option.map_none, Option.map_eq_none_iff] at hl
    rw [run_append]
    exact hl

/-- A run without limits can do without any of the calls that ask or fail: the others have the same
replies and lead to the same workshop. -/
theorem run_filter (hw : w.limiter = none) {keep : Event → Bool}
    (hkeep : ∀ e, e.takesEffect = true → keep e = true) (calls : List (Call × Clock)) :
    run w (((run w calls).events.filter keep).map Event.request) =
      ⟨(run w calls).events.filter keep, (run w calls).workshop⟩ := by
  induction calls using List.reverseRecOn with
  | nil => rfl
  | append_singleton calls c ih =>
    obtain ⟨c, now⟩ := c
    have hlimiter := limiter_run hw calls
    rw [run_append]
    generalize run w calls = t at ih hlimiter
    simp only [Trace.extend, List.filter_append]
    by_cases hk : keep ⟨c, now, (t.workshop.call now c).1⟩ = true
    · rw [List.filter_cons_of_pos hk, List.filter_nil, List.map_append, List.map_singleton,
        Event.request, run_append, ih]
      rfl
    · -- what is not kept asked or failed, and so it left the workshop
      have hsame : (t.workshop.call now c).2 = t.workshop := by
        have heffect := mt (hkeep _) hk
        simp only [Event.takesEffect, Bool.and_eq_true, Bool.not_eq_true', not_and,
          Bool.not_eq_true] at heffect
        by_cases hc : c.isRead = true
        · exact call_of_isRead hc
        · cases hr : (t.workshop.call now c).1 with
          | error e => exact call_of_error_of_unlimited hlimiter hr
          | ok a =>
            rw [hr] at heffect
            exact absurd (heffect (Bool.eq_false_iff.2 hc)) (nomatch ·)
      rw [List.filter_cons_of_neg hk, List.filter_nil, List.append_nil, hsame, ih]

/-- **Calls that fail and questions change nothing**: a call that fails leaves the store, and its
limiter can only differ in the buckets, not even there when a configuration is refused for its
formula; a question leaves the whole workshop. A run without limits is the same without them. -/
theorem refusals_change_nothing (w : Workshop) :
    (∀ now c e, (w.call now c).1 = .error e →
      (w.call now c).2.store = w.store ∧ SameRules (w.call now c).2 w ∧
      ∀ fault, e = .invalidFormula fault → (w.call now c).2 = w) ∧
    (∀ now c, c.isRead = true → (w.call now c).2 = w) ∧
    (w.limiter = none → ∀ (calls : List (Call × Clock)) (keep : Event → Bool),
      (∀ e, e.takesEffect = true → keep e = true) →
      let t := run w calls
      run w ((t.events.filter keep).map Event.request) = ⟨t.events.filter keep, t.workshop⟩) := by
  refine ⟨fun now c e h => ⟨store_call_of_error h, w.sameRules_call now c, ?_⟩,
    fun now c hc => call_of_isRead hc, fun hw calls keep hkeep => run_filter hw hkeep calls⟩
  rintro fault rfl
  exact call_of_invalidFormula h

/-- An item that is not stored cannot be deleted, and a run is the same without the attempt. -/
theorem absent_deletion_changes_nothing :
    let w := new default ⟨none, none⟩
    let now : Clock := ⟨0, ⟨0, 0⟩⟩
    let creation : Call × Clock := (.create "ana" ⟨"Edge", "RARE", "Sword.IRON", []⟩, now)
    let calls := [creation, (.delete "bo" 9, now), (.ids, now)]
    (w.call now (.delete "bo" 9)).1 = .error (.itemNotFound 9) ∧
    (w.call now (.delete "bo" 9)).2.store = w.store ∧ (w.call now .ids).2 = w ∧
    run w [creation] =
      ⟨(run w calls).events.filter Event.takesEffect, (run w calls).workshop⟩ := by
  intro w now creation calls
  obtain ⟨hfailed, hread, hrun⟩ := refusals_change_nothing w
  exact ⟨rfl, (hfailed now (.delete "bo" 9) (.itemNotFound 9) rfl).1, hread now .ids rfl,
    hrun rfl calls Event.takesEffect fun _ h => h⟩

end ItemBudget.Workshop
