import Mathlib.Logic.Basic

/-!
# Results

How a computation that can fail came to its result, step by step.
-/

namespace ItemBudget

variable {ε α β : Type} {x : Except ε α}

/-- A sequence of two steps gives a result when the first does and the second does from there. -/
theorem bind_eq_ok {f : α → Except ε β} {b : β} :
    (x >>= f) = .ok b ↔ ∃ a, x = .ok a ∧ f a = .ok b := by
  constructor
  · intro h
    cases x with
    | error e => cases h
    | ok a => exact ⟨a, rfl, h⟩
  · rintro ⟨a, rfl, h⟩
    exact h

/-- It fails when the first step does or the second does from there. -/
theorem bind_eq_error {f : α → Except ε β} {e : ε} :
    (x >>= f) = .error e ↔ x = .error e ∨ ∃ a, x = .ok a ∧ f a = .error e := by
  constructor
  · intro h
    cases x with
    | error e' => exact .inl (by cases h; rfl)
    | ok a => exact .inr ⟨a, rfl, h⟩
  · rintro (rfl | ⟨a, rfl, h⟩)
    · rfl
    · exact h

theorem map_eq_ok {f : α → β} {b : β} : x.map f = .ok b ↔ ∃ a, x = .ok a ∧ f a = b := by
  constructor
  · intro h
    cases x with
    | error e => cases h
    | ok a => exact ⟨a, rfl, Except.ok.inj h⟩
  · rintro ⟨a, rfl, rfl⟩
    rfl

theorem map_eq_error {f : α → β} {e : ε} : x.map f = .error e ↔ x = .error e := by
  cases x with
  | error e' => exact ⟨fun h => by cases h; rfl, fun h => by cases h; rfl⟩
  | ok a => exact ⟨(nomatch ·), (nomatch ·)⟩

theorem isOk_iff_forall_ne_error : x.isOk = true ↔ ∀ e, x ≠ .error e := by
  cases x with
  | error e => exact ⟨(nomatch ·), fun h => absurd rfl (h e)⟩
  | ok a => exact ⟨fun _ _ => nofun, fun _ => rfl⟩

theorem isOk_map (f : α → β) : (x.map f).isOk = x.isOk := by
  cases x <;> rfl

end ItemBudget
