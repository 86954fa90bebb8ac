import ItemBudget.Formula.Basic
import ItemBudget.Proofs.Outcome

/-!
# When a formula has a value

The fault of a tree names the first variable that has no value (`Expr.eval_eq_error_iff`), and so
the tree has a value when all of them do (`Expr.eval_isOk_iff`). Which variables have one does not
depend on the charge, so a valid text has a value for every charge (`reads_of_validate`), and any
other text fails with one fault for all (`attributeCost_eq_error_iff`).
-/

namespace ItemBudget.Formula

variable {vars : Bindings}

/-- The first variable without a value is the fault of a tree that has none. -/
theorem Expr.eval_eq_error_iff {e : Expr} {fault : Fault} :
    e.eval vars = .error fault ↔
      (e.occurrences.find? fun n => (vars n).isNone).map .unknownVariable = some fault := by
  induction e generalizing fault with
  | number x => exact ⟨(nomatch ·), (nomatch ·)⟩
  | var n =>
    rw [Expr.occurrences, Expr.eval, List.find?_singleton]
    cases vars n with
    | none => exact ⟨fun h => by cases h; rfl, fun h => by cases h; rfl⟩
    | some x => exact ⟨(nomatch ·), (nomatch ·)⟩
  | neg e ih =>
    rw [Expr.occurrences, ← ih, Expr.eval]
    cases e.eval vars with
    | error f => exact Iff.rfl
    | ok x => exact ⟨(nomatch ·), (nomatch ·)⟩
  | binary o l r ihl ihr =>
    rw [Expr.occurrences, List.find?_append, Expr.eval]
    cases hl : l.eval vars with
    | error f =>
      obtain ⟨n, hn, rfl⟩ := Option.map_eq_some_iff.1 (ihl.1 hl)
      rw [hn]
      exact ⟨fun h => by cases h; rfl, fun h => by cases h; rfl⟩
    | ok x =>
      have hnone : (l.occurrences.find? fun n => (vars n).isNone) = none := by
        rw [Option.eq_none_iff_forall_ne_some]
        intro n hn
        have herror := ihl.2 (congrArg (Option.map Fault.unknownVariable) hn)
        rw [hl] at herror
        cases herror
      rw [hnone, Option.none_or, ← ihr]
      cases r.eval vars with
      | error f => exact Iff.rfl
      | ok y => exact ⟨(nomatch ·), (nomatch ·)⟩

theorem eval_eq_error_iff {e : Expr} {fault : Fault} :
    Formula.eval ⟨some e⟩ vars = .error fault ↔
      (e.occurrences.find? fun n => (vars n).isNone).map .unknownVariable = some fault := by
  rw [← Expr.eval_eq_error_iff]
  show (e.eval vars >>= fun x => pure (if x.isFinite then x else 0.0)) = .error fault ↔ _
  cases e.eval vars with
  | error f => exact Iff.rfl
  | ok x => exact ⟨(nomatch ·), (nomatch ·)⟩

theorem forall_ne_unbound_iff {names : List String} :
    (∀ fault, (names.find? fun n => (vars n).isNone).map Fault.unknownVariable ≠ some fault) ↔
      ∀ n ∈ names, (vars n).isSome = true := by
  rw [← Option.eq_none_iff_forall_ne_some, Option.map_eq_none_iff, List.find?_eq_none]
  simp only [Bool.not_eq_true, Option.isNone_eq_false_iff]

/-- A tree has a value when all its variables do. -/
theorem Expr.eval_isOk_iff {e : Expr} :
    (e.eval vars).isOk = true ↔ ∀ n ∈ e.occurrences, (vars n).isSome = true := by
  rw [isOk_iff_forall_ne_error, ← forall_ne_unbound_iff]
  exact forall_congr' fun fault => not_congr Expr.eval_eq_error_iff

theorem eval_isOk_iff {e : Expr} :
    (Formula.eval ⟨some e⟩ vars).isOk = true ↔ ∀ n ∈ e.occurrences, (vars n).isSome = true := by
  rw [isOk_iff_forall_ne_error, ← forall_ne_unbound_iff]
  exact forall_congr' fun fault => not_congr eval_eq_error_iff

/-! ## Valid formulas -/

variable {source : String} {f : Formula}

theorem validate_eq (h : ofText? source = .ok f) :
    validate source = (f.eval unitBindings).map fun _ => () := by
  unfold validate evalText
  rw [h]
  rfl

theorem attributeCost_eq (h : ofText? source = .ok f) (c : Charge) :
    attributeCost source c = f.eval c.bindings := by
  unfold attributeCost evalText
  rw [h]
  rfl

theorem attributeCost_eq_error {e : Fault} (h : ofText? source = .error e) (c : Charge) :
    attributeCost source c = .error e := by
  unfold attributeCost evalText
  rw [h]
  rfl

theorem isSome_bindings_iff (c : Charge) (n : String) :
    (c.bindings n).isSome = true ↔ n ∈ variableNames := by
  have hkeys : variableNames = c.values.map Prod.fst := rfl
  rw [Charge.bindings, List.lookup_isSome_iff, hkeys, List.mem_map]
  simp only [beq_iff_eq, @eq_comm String n]

theorem isSome_unitBindings_iff (n : String) :
    (unitBindings n).isSome = true ↔ n ∈ variableNames := by
  unfold unitBindings
  split
  · next h => exact iff_of_true rfl h
  · next h => exact iff_of_false (nomatch ·) h

/-- Where a formula fails does not depend on the numbers that it is charged for. -/
theorem eval_bindings_eq_error_iff (c : Charge) {fault : Fault} :
    f.eval c.bindings = .error fault ↔ f.eval unitBindings = .error fault := by
  obtain ⟨_ | e⟩ := f
  · exact Iff.rfl
  · have hisNone : (fun n => (c.bindings n).isNone) = fun n => (unitBindings n).isNone := by
      funext n
      have hbound := (isSome_bindings_iff c n).trans (isSome_unitBindings_iff n).symm
      rw [← Option.not_isSome, ← Option.not_isSome, Bool.eq_iff_iff.2 hbound]
    rw [eval_eq_error_iff, eval_eq_error_iff, hisNone]

theorem isOk_eval_bindings (h : (f.eval unitBindings).isOk = true) (c : Charge) :
    (f.eval c.bindings).isOk = true := by
  rw [isOk_iff_forall_ne_error] at h ⊢
  intro fault hc
  exact h fault ((eval_bindings_eq_error_iff c).1 hc)

/-- A charge fails with the fault for which the text is not valid. -/
theorem attributeCost_eq_error_iff (source : String) (c : Charge) {fault : Fault} :
    attributeCost source c = .error fault ↔ validate source = .error fault := by
  cases h : ofText? source with
  | error e =>
    have hv : validate source = .error e := by
      unfold validate evalText
      rw [h]
      rfl
    rw [attributeCost_eq_error h, hv]
    simp only [Except.error.injEq]
  | ok f => rw [attributeCost_eq h, validate_eq h, map_eq_error, eval_bindings_eq_error_iff]

/-- A valid text is read as a formula that has a value for every charge. -/
theorem reads_of_validate (h : validate source = .ok ()) :
    ∃ f, ofText? source = .ok f ∧ ∀ c : Charge, (f.eval c.bindings).isOk = true := by
  obtain ⟨x, hx, -⟩ := map_eq_ok.1 h
  obtain ⟨f, hf, -⟩ := bind_eq_ok.1 hx
  refine ⟨f, hf, isOk_eval_bindings ?_⟩
  rw [← isOk_map fun _ => (), ← validate_eq hf, h]
  rfl

end ItemBudget.Formula
