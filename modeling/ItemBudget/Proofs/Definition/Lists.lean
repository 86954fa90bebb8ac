import ItemBudget.Proofs.Definition.Acceptance

/-!
# Lists enter up to the first refusal

A text of formulas or of attributes is not checked before it is added: its entries are put one after
the other, and a refused one ends the load where it stands (`UpToRefused`). What was put before it
stays. So a load that is refused after its first entry has changed the definitions, and then no text
that has this entry can be loaded any more, the mended one included (`lists_load_up_to_refused`).
-/

namespace ItemBudget.Definitions

variable {d : Definitions}

/-- What becomes of a load that adds what was read one after the other: it adds all, or the part
before the first that is refused. -/
inductive UpToRefused {α : Type} (add : Definitions → α → Loaded) (entry : α → Entry)
    (d : Definitions) (read : Option (List α)) : Loaded → Prop
  | unread (h : read = none) : UpToRefused add entry d read (d.refuse .malformedRon)
  | all (xs : List α) (hread : read = some xs) (htakes : d.Takes (xs.map entry)) :
    UpToRefused add entry d read (d.putAll (xs.map entry)).accept
  | stopped (done : List α) {x : α} {rest : List α} {e : DefinitionError}
      (hread : read = some (done ++ x :: rest)) (htakes : d.Takes (done.map entry))
      (hrefused : add (d.putAll (done.map entry)) x = (d.putAll (done.map entry)).refuse e) :
    UpToRefused add entry d read ((d.putAll (done.map entry)).refuse e)

/-- A text with an entry under a key that is taken is refused. -/
theorem load_error_of_taken {kind : DefinitionKind} {text : String} {es : List Entry} {e : Entry}
    (hread : entriesOf? kind text = some es) (he : e ∈ es) (htaken : d.at? e.key ≠ none) :
    (d.load kind text).error ≠ none := by
  intro hnone
  have haccept : d.load kind text = (d.load kind text).definitions.accept := by
    rw [accept, ← hnone]
  obtain ⟨es', hread', htakes, -⟩ := load_eq_accept_iff.1 haccept
  obtain rfl := Option.some.inj (hread.symm.trans hread')
  exact htaken (htakes.free e he)

section Lists

variable {α : Type} {add : Definitions → α → Loaded} {entry : α → Entry} {read : Option (List α)}
  {r : Loaded} (hadd : ∀ x, Puts (add · x) [entry x])

include hadd

theorem upToRefused_addEach (d : Definitions) (xs : List α) :
    UpToRefused add entry d (some xs) (addEach add d xs) := by
  induction xs generalizing d with
  | nil => exact .all [] rfl (takes_nil d)
  | cons x xs ih =>
    rcases hadd x d with ⟨hfirst, heq⟩ | ⟨-, e, heq⟩
    · have heq : add d x = (d.put (entry x)).accept := heq
      have hstep : addEach add d (x :: xs) = addEach add (d.put (entry x)) xs := by
        rw [addEach, heq]
        rfl
      have hx := takes_singleton.1 hfirst
      rw [hstep]
      have hrest := ih (d.put (entry x))
      generalize addEach add (d.put (entry x)) xs = r at hrest ⊢
      -- what holds of the rest holds with the first entry put before it
      cases hrest with
      | unread hnone => cases hnone
      | all ys hread htakes =>
        cases hread
        exact .all (x :: xs) rfl (takes_cons.2 ⟨hx, htakes⟩)
      | stopped done hread htakes hrefused =>
        cases hread
        exact .stopped (x :: done) rfl (takes_cons.2 ⟨hx, htakes⟩) hrefused
    · have heq : add d x = d.refuse e := heq
      have hstep : addEach add d (x :: xs) = d.refuse e := by
        rw [addEach, heq]
        rfl
      rw [hstep]
      exact .stopped [] rfl (takes_nil d) heq

theorem upToRefused_addRead (d : Definitions) (read : Option (List α)) :
    UpToRefused add entry d read (addRead (addEach add) d read) := by
  cases read with
  | none => exact .unread rfl
  | some xs => exact upToRefused_addEach hadd d xs

/-- A first entry that the definitions take stays, whatever comes after it. -/
theorem UpToRefused.at?_first (h : UpToRefused add entry d read r) {e : Entry} {es : List Entry}
    (hread : read.map (·.map entry) = some (e :: es)) (he : d.Takes [e]) :
    r.definitions.at? e.key = some e := by
  obtain ⟨xs, hxs, hmap⟩ := Option.map_eq_some_iff.1 hread
  obtain ⟨x, rest, rfl, rfl, -⟩ := List.map_eq_cons_iff.1 hmap
  have hput : ∀ {es : List Entry}, d.Takes es → entry x ∈ es →
      (d.putAll es).at? (entry x).key = some (entry x) :=
    fun htakes hmem => (at?_putAll htakes).2 (.inr ⟨hmem, rfl⟩)
  cases h with
  | unread hnone => cases hnone.symm.trans hxs
  | all ys hall htakes =>
    cases hall.symm.trans hxs
    exact hput htakes List.mem_cons_self
  | stopped done hstop htakes hrefused =>
    have heq := Option.some.inj (hstop.symm.trans hxs)
    cases done with
    | nil =>
      cases heq
      rcases hadd x d with ⟨-, haccept⟩ | ⟨hnot, -⟩
      · exact absurd (hrefused.symm.trans haccept) refuse_ne_accept
      · exact absurd he hnot
    | cons _ _ =>
      cases heq
      exact hput htakes List.mem_cons_self

/-- A refused load changes nothing exactly when nothing was read or the first entry is refused. -/
theorem UpToRefused.definitions_eq_iff (h : UpToRefused add entry d read r)
    (herror : r.error ≠ none) :
    r.definitions = d ↔ ∀ e es, read.map (·.map entry) = some (e :: es) → ¬d.Takes [e] := by
  constructor
  · intro heq e es hread he
    have hstays := h.at?_first hadd hread he
    rw [heq, (takes_singleton.1 he).2] at hstays
    cases hstays
  · intro hfirst
    cases h with
    | unread hnone => rfl
    | all ys hread htakes => exact absurd rfl herror
    | @stopped done x rest _ hread htakes hrefused =>
      cases done with
      | nil => rfl
      | cons y done =>
        have hentries : read.map (·.map entry) =
            some (entry y :: (done ++ x :: rest).map entry) := by
          rw [hread]
          rfl
        exact absurd (takes_singleton.2 (takes_cons.1 htakes).1) (hfirst _ _ hentries)

/-- A first entry that was taken keeps out every text that has it. -/
theorem UpToRefused.load_error (h : UpToRefused add entry d read r) {e : Entry} {es : List Entry}
    (hread : read.map (·.map entry) = some (e :: es)) (he : d.Takes [e]) {kind : DefinitionKind}
    {again : String} {es' : List Entry} (hagain : entriesOf? kind again = some es')
    (hmem : e ∈ es') : (r.definitions.load kind again).error ≠ none := by
  have hstays := h.at?_first hadd hread he
  exact load_error_of_taken hagain hmem (hstays ▸ Option.some_ne_none e)

end Lists

/-- **Lists are loaded up to the first entry that is refused.** A text of formulas or of attributes
adds all of its entries, or those before the first refused one. A refused load changes nothing
exactly when the text cannot be read or its first entry is refused. When its first entry was taken,
every text of that kind with this entry is refused from then on. -/
theorem lists_load_up_to_refused (d : Definitions) (text : String) :
    UpToRefused addFormula .formula d (formulasOfText? text) (d.load .formulas text) ∧
    UpToRefused addAttribute .itemAttribute d (attributesOfText? text) (d.load .attributes text) ∧
    ∀ kind, kind = .formulas ∨ kind = .attributes → (d.load kind text).error ≠ none →
      ((d.load kind text).definitions = d ↔
        ∀ e es, entriesOf? kind text = some (e :: es) → ¬d.Takes [e]) ∧
      ∀ e es, entriesOf? kind text = some (e :: es) → d.Takes [e] →
        ∀ again es', entriesOf? kind again = some es' → e ∈ es' →
          ((d.load kind text).definitions.load kind again).error ≠ none := by
  have hformulas := upToRefused_addRead puts_addFormula d (formulasOfText? text)
  have hattributes := upToRefused_addRead puts_addAttribute d (attributesOfText? text)
  refine ⟨hformulas, hattributes, ?_⟩
  rintro kind (rfl | rfl) herror
  · exact ⟨hformulas.definitions_eq_iff puts_addFormula herror,
      fun _ _ hread he _ _ => hformulas.load_error puts_addFormula hread he⟩
  · exact ⟨hattributes.definitions_eq_iff puts_addAttribute herror,
      fun _ _ hread he _ _ => hattributes.load_error puts_addAttribute hread he⟩

/-- A text of two formulas. -/
def twoFormulas (expression : String) : String :=
  "(formulas: [(name: \"sum\", expression: \"weight + max\"), (name: \"product\", expression: \"" ++
    expression ++ "\")])"

/-- The first formula of a refused text stays, and keeps the mended text out. -/
theorem refused_list_changes_definitions :
    let r := (∅ : Definitions).load .formulas (twoFormulas "weight *")
    r.error.isSome = true ∧ r.definitions ≠ ∅ ∧
      (r.definitions.load .formulas (twoFormulas "weight * max")).error = some (.duplicate "formula sum") ∧
      ((∅ : Definitions).load .formulas (twoFormulas "weight * max")).error = none := by
  decide +kernel

end ItemBudget.Definitions
