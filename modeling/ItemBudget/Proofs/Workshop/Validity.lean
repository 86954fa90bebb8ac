import ItemBudget.Proofs.Budget.Prices
import ItemBudget.Proofs.Workshop.Items
import ItemBudget.Proofs.Workshop.Run

/-!
# Configurations that were accepted

A configuration is put in force only when its formula is valid, and no other call changes it. So once
one was accepted, the formula in force stays valid, and a valid formula has a value for every charge:
no budget of any item leaves out a bound because its formula failed.
-/

namespace ItemBudget.Workshop

open Formula (Charge validate)

variable {es : List Event} {s s' : Store} {now : Clock} {c : Call} {r : Except Error Answer}

/-- The event put another configuration in force. -/
def Event.configures (e : Event) : Bool :=
  match e.call with
  | .setConfig .. => e.reply.isOk
  | _ => false

/-- An outcome puts a valid configuration in force, or keeps the one there is. -/
theorem config_of_outcome (h : Outcome s now c r s') :
    if (Event.mk c now r).configures then validate s'.config.expression = .ok ()
    else s'.config = s.config := by
  cases h with
  | create => rfl
  | update hu =>
    obtain ⟨old, -, -, rfl⟩ := Store.update_eq_ok.1 hu
    rfl
  | delete hd =>
    obtain ⟨-, rfl⟩ := Store.delete_eq_ok.1 hd
    rfl
  | setConfig hv => exact hv
  | read hc =>
    cases c with
    | create | update | delete | setConfig => cases hc
    | _ => rfl
  | failed e => cases c <;> rfl

theorem valid_run {w : Workshop} {calls : List (Call × Clock)}
    (h : validate w.store.config.expression = .ok () ∨
      ∃ e ∈ (run w calls).events, e.configures = true) :
    validate (run w calls).workshop.store.config.expression = .ok () := by
  -- what an event configures is an alternative of the invariant, because the first may come late
  have hrun := run_induction (w := w) (p := fun es s =>
    (validate w.store.config.expression = .ok () ∨ ∃ e ∈ es, e.configures = true) →
      validate s.config.expression = .ok ()) ?init ?step calls
  · exact hrun h
  case init =>
    rintro (hv | ⟨e, he, -⟩)
    · exact hv
    · cases he
  case step =>
    intro es s c now r s' ih ho hconf
    have hconfig := config_of_outcome ho
    split at hconfig
    · exact hconfig
    · next he =>
      rw [hconfig]
      apply ih
      rcases hconf with hv | ⟨e, hmem, hc⟩
      · exact .inl hv
      · rcases List.mem_append.1 hmem with hmem | hmem
        · exact .inr ⟨e, hmem, hc⟩
        · rw [List.mem_singleton.1 hmem] at hc
          exact absurd hc he

/-- **An accepted configuration charges in full**: from then on, or from the start when the first
configuration has a valid formula, the formula has a value for every charge, and the budget of every
item is the checked one and is made of the prices under the formula. -/
theorem accepted_charges_in_full (config : BudgetConfig) (maxHistory : Option Nat)
    (limiter : Option RateLimit.Limiter) (definitions : Option AttributeBook)
    (calls : List (Call × Clock))
    (h : validate config.expression = .ok () ∨
      ∃ e ∈ (run ⟨.empty config maxHistory, limiter, definitions⟩ calls).events,
        e.configures = true) :
    let w := (run ⟨.empty config maxHistory, limiter, definitions⟩ calls).workshop
    (∀ charge : Charge, ∃ x, Formula.attributeCost w.store.config.expression charge = .ok x) ∧
    ∀ item, checkedBudget item w.store.config = .ok (w.preview item) ∧
      prices w.store.config.expression w.store.config.weights item
        = .ok (w.preview item).costs := by
  intro w
  have hv : validate w.store.config.expression = .ok () := valid_run h
  refine ⟨fun charge => ?_, fun item => ⟨checkedBudget_eq_ok hv item, prices_eq_costs hv item⟩⟩
  obtain ⟨f, hf, hok⟩ := Formula.reads_of_validate hv
  rw [Formula.attributeCost_eq hf]
  have hx := hok charge
  cases he : f.eval charge.bindings with
  | error fault => rw [he] at hx; cases hx
  | ok x => exact ⟨x, rfl⟩

/-- A workshop starts with a formula that is not valid, refuses another such one, and charges in full
once a valid one was accepted. -/
theorem accepted_after_refusal :
    let now : Clock := ⟨0, ⟨0, 0⟩⟩
    let calls : List (Call × Clock) := [(.setConfig "ana" (.ofFormula "weight * level"), now),
      (.setConfig "bo" (.ofFormula "max - min"), now)]
    let t := run ⟨.empty (.ofFormula "weight +") none, none, none⟩ calls
    let item : Item := ⟨"Edge", "RARE", "Sword.IRON", [⟨.custom, "A", [⟨.double, "2", "5"⟩], false⟩]⟩
    (validate "weight +").isOk = false ∧ (∃ e ∈ t.events, e.configures = true) ∧
    checkedBudget item t.workshop.store.config = .ok (t.workshop.preview item) ∧
    (t.workshop.preview item).used = 3.0 := by
  intro now calls t item
  have hconf : ∃ e ∈ t.events, e.configures = true := by decide +kernel
  have hfull := accepted_charges_in_full (.ofFormula "weight +") none none none calls (.inr hconf)
  exact ⟨by decide +kernel, hconf, (hfull.2 item).1, by decide +kernel⟩

end ItemBudget.Workshop
