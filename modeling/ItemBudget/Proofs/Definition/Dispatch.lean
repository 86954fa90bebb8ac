import ItemBudget.Definition.FileTree
import ItemBudget.Proofs.Definition.Acceptance
import ItemBudget.Proofs.Definition.Paths

/-!
# What a definition file is loaded as

A file does not say what it defines. `kindOf` guesses it from the words in its text and its name, in
a fixed order (`kindOf_eq_iff`), and the file is loaded as that kind. A text that can be read as one
kind only is then loaded as what it is, or refused as one that cannot be read: what `load` says of a
text that it reads is never that (`error_of_readable`).
-/

namespace ItemBudget

namespace DefinitionKind

/-- The kinds in the order in which a file is tried for them. -/
def inOrder : List DefinitionKind :=
  [.activeFormula, .formulas, .attributes, .weights, .allowances, .single]

/-- The kinds that come before this one. -/
def before (kind : DefinitionKind) : List DefinitionKind := inOrder.takeWhile (· ≠ kind)

/-- A file with this name and text mentions the kind. -/
def mentioned (fileName text : String) : DefinitionKind → Bool
  | .activeFormula => Text.mentions text "active_formula:"
  | .formulas => Text.mentions fileName "formula" || Text.mentions text "formulas:"
  | .attributes => Text.mentions fileName "attribute" || Text.mentions text "attributes:"
  | .weights => Text.mentions fileName "weight" || Text.mentions text "weights:"
  | .allowances => Text.mentions fileName "allowance" || Text.mentions text "allowances:"
  | .single => true

end DefinitionKind

namespace Definitions

open DefinitionKind (before mentioned inOrder)

variable {d : Definitions} {kind : DefinitionKind} {text : String}

/-- The kind of a file is the first one that it mentions. -/
theorem kindOf_eq_iff {fileName text : String} :
    kindOf fileName text = kind ↔
      mentioned fileName text kind = true ∧ ∀ k ∈ before kind, mentioned fileName text k = false := by
  have hkind : kindOf fileName text =
      if mentioned fileName text .activeFormula then .activeFormula
      else if mentioned fileName text .formulas then .formulas
      else if mentioned fileName text .attributes then .attributes
      else if mentioned fileName text .weights then .weights
      else if mentioned fileName text .allowances then .allowances
      else .single := rfl
  have hsingle : mentioned fileName text .single = true := rfl
  rw [hkind]
  generalize mentioned fileName text = m at hsingle ⊢
  cases kind with
  | _ =>
    simp [before, inOrder]
    split_ifs <;> simp_all

/-! ## What is refused in a text that can be read -/

/-- The errors of a text that is not read at all. -/
def unread : List DefinitionError :=
  [.malformedRon, .invalidSchema "Could not parse as any known definition type"]

/-- The load was not refused as one of a text that is not read at all. -/
def WasRead (l : Loaded) : Prop := ∀ e ∈ unread, l.error ≠ some e

theorem wasRead_accept (d : Definitions) : WasRead d.accept := fun _ _ h => nomatch h

theorem wasRead_duplicate (d : Definitions) (what : String) : WasRead (d.refuse (.duplicate what)) := by
  simp [WasRead, unread, refuse]

theorem wasRead_invalidFormula (d : Definitions) (name : String) (fault : Formula.Fault) :
    WasRead (d.refuse (.invalidFormula name fault)) := by
  simp [WasRead, unread, refuse]

/-- The text of an unread definition starts like no other. -/
theorem wasRead_invalidSchema (d : Definitions) {reason : String}
    (h : reason.toList.head? ≠ some 'C') : WasRead (d.refuse (.invalidSchema reason)) := by
  have hne : reason ≠ "Could not parse as any known definition type" := by
    rintro rfl
    exact h rfl
  simp [WasRead, unread, refuse, hne]

theorem wasRead_addFormula (d : Definitions) (f : NamedFormula) : WasRead (d.addFormula f) := by
  unfold addFormula FormulaBook.add
  split_ifs
  · exact wasRead_duplicate d _
  · cases Formula.validate f.expression with
    | error fault => exact wasRead_invalidFormula d _ fault
    | ok _ => exact wasRead_accept _

theorem wasRead_addAttribute (d : Definitions) (a : AttributeDefinition) :
    WasRead (d.addAttribute a) := by
  unfold addAttribute AttributeBook.add
  split_ifs
  · exact wasRead_duplicate d _
  · exact wasRead_accept _

theorem wasRead_addEach {α : Type} {add : Definitions → α → Loaded}
    (h : ∀ d x, WasRead (add d x)) (d : Definitions) (xs : List α) : WasRead (addEach add d xs) := by
  induction xs generalizing d with
  | nil => exact wasRead_accept d
  | cons x xs ih =>
    have hx := h d x
    unfold addEach
    split
    · exact ih _
    · assumption

theorem wasRead_addWeights (d : Definitions) (t : WeightTable) : WasRead (d.addWeights t) := by
  unfold addWeights
  cases h : t.entries.findSome? fun e => d.weightError? e.1 e.2 with
  | none => exact wasRead_accept _
  | some error =>
    obtain ⟨e, -, he⟩ := List.exists_of_findSome?_eq_some h
    unfold weightError? at he
    split_ifs at he <;> cases he
    · exact wasRead_duplicate d _
    · exact wasRead_invalidSchema d (by simp)

theorem wasRead_addAllowances (d : Definitions) (t : AllowanceTable) :
    WasRead (d.addAllowances t) := by
  unfold addAllowances
  cases h : t.flatten.findSome? fun e => d.allowanceError? e.1 e.2.1 e.2.2 with
  | none => exact wasRead_accept _
  | some error =>
    obtain ⟨e, -, he⟩ := List.exists_of_findSome?_eq_some h
    unfold allowanceError? at he
    split_ifs at he <;> cases he
    · exact wasRead_duplicate d _
    · exact wasRead_invalidSchema d (by simp)

theorem wasRead_activate (d : Definitions) (formula : String) : WasRead (d.activate formula) := by
  unfold activate
  cases d.activeFormula with
  | some _ => exact wasRead_duplicate d _
  | none => exact wasRead_accept _

theorem wasRead_addRead {α β : Type} {add : Definitions → α → Loaded} (h : ∀ d x, WasRead (add d x))
    {f : α → β} {x? : Option α} (hread : (x?.map f).isSome = true) : WasRead (addRead add d x?) := by
  cases x? with
  | none => cases hread
  | some x => exact h d x

theorem wasRead_load (h : (entriesOf? kind text).isSome = true) : WasRead (d.load kind text) := by
  cases kind with
  | formulas => exact wasRead_addRead (wasRead_addEach wasRead_addFormula) h
  | attributes => exact wasRead_addRead (wasRead_addEach wasRead_addAttribute) h
  | weights => exact wasRead_addRead wasRead_addWeights h
  | allowances => exact wasRead_addRead wasRead_addAllowances h
  | activeFormula => exact wasRead_addRead wasRead_activate h
  | single =>
    unfold load loadSingle
    unfold entriesOf? at h
    cases hf : document? NamedFormula.ofDocument? text with
    | some f => exact wasRead_addFormula d f
    | none =>
      cases ha : document? AttributeDefinition.ofDocument? text with
      | some a => exact wasRead_addAttribute d a
      | none => simp [hf, ha] at h

theorem load_of_entriesOf?_eq_none (h : entriesOf? kind text = none) :
    d.load kind text = d.refuse (if kind = .single then
      .invalidSchema "Could not parse as any known definition type" else .malformedRon) := by
  cases kind with
  | single =>
    unfold load loadSingle
    unfold entriesOf? at h
    cases hf : document? NamedFormula.ofDocument? text with
    | some f => simp [hf] at h
    | none =>
      cases ha : document? AttributeDefinition.ofDocument? text with
      | some a => simp [hf, ha] at h
      | none => rfl
  | _ =>
    unfold load
    rw [Option.map_eq_none_iff.1 h]
    rfl

/-! ## Files -/

/-- Of the texts with several definitions, this is one of a single kind. -/
structure ReadableOnlyAs (kind : DefinitionKind) (text : String) : Prop where
  several : kind ≠ .single
  read : (entriesOf? kind text).isSome = true
  only : ∀ k, k ≠ .single → k ≠ kind → entriesOf? k text = none

theorem loadFileAt_eq {t : FileTree} {path bytes : Bytes}
    (hfile : t.get? path = some (.file bytes))
    (htext : Bytes.text? bytes = some text) (d : Definitions) :
    t.loadFileAt path d =
      d.load (kindOf (FileTree.nameText (FileTree.lastName path)) text) text := by
  simp only [FileTree.loadFileAt, hfile, FileTree.loadFile, FileTree.loadBytes, htext]

/-- **What becomes of a definition file.** A file with a text that can be read as one kind only is
loaded as this kind when it is the first one that the file mentions. Otherwise it is refused without
a change, as a text that cannot be read, unless it mentions none and is a single definition too. -/
theorem file_dispatch {t : FileTree} {path bytes : Bytes}
    (hfile : t.get? path = some (.file bytes))
    (htext : Bytes.text? bytes = some text) (honly : ReadableOnlyAs kind text)
    (d : Definitions) :
    let name := FileTree.nameText (FileTree.lastName path)
    let chosen := kindOf name text
    let loaded := t.loadFileAt path d
    (chosen = kind ↔
      mentioned name text kind = true ∧ ∀ k ∈ before kind, mentioned name text k = false) ∧
    (chosen = kind → loaded = d.load kind text) ∧
    (chosen ≠ kind → entriesOf? chosen text = none →
      loaded = d.refuse (if chosen = .single then
        .invalidSchema "Could not parse as any known definition type" else .malformedRon) ∧
      loaded ≠ d.load kind text) ∧
    (chosen ≠ kind → (entriesOf? chosen text).isSome = true →
      chosen = .single ∧ loaded = d.load .single text) := by
  intro name chosen loaded
  have hloaded : loaded = d.load chosen text := loadFileAt_eq hfile htext d
  refine ⟨kindOf_eq_iff, fun h => ?_, fun _ hnone => ?_, fun hne hsome => ?_⟩
  · rw [hloaded, h]
  · rw [load_of_entriesOf?_eq_none hnone] at hloaded
    refine ⟨hloaded, fun heq => ?_⟩
    refine wasRead_load (d := d) honly.read _ ?_ (congrArg Loaded.error (heq.symm.trans hloaded))
    split_ifs <;> simp [unread]
  · have hsingle : chosen = .single := by
      by_contra h
      rw [honly.only chosen h hne] at hsome
      cases hsome
    exact ⟨hsingle, hsingle ▸ hloaded⟩

/-! ## One file -/

open Bytes (ofText)

/-- A directory with one file. -/
def oneFile (text : String) : FileTree := .directory [(ofText "a.ron", .file (ofText text))]

theorem nameText_oneFile : FileTree.nameText (FileTree.lastName (ofText "a.ron")) = "a.ron" := by
  rw [FileTree.lastName_of_isName (by decide), FileTree.nameText_ofText]

theorem get?_oneFile (text : String) :
    (oneFile text).get? (ofText "a.ron") = some (.file (ofText text)) := by
  rw [FileTree.get?, if_neg (by decide), FileTree.names_of_isName (by decide)]
  rfl

/-- Weights in a file that is named after nothing. -/
theorem weights_in_a_file :
    let text := "(weights: \x7b \"DAMAGE\": 2.0 \x7d)"
    ReadableOnlyAs .weights text ∧
      (oneFile text).loadFileAt (ofText "a.ron") ∅ = load ∅ .weights text := by
  intro text
  have honly : ReadableOnlyAs .weights text :=
    ⟨by decide, by decide +kernel, fun k => by cases k <;> decide +kernel⟩
  have hkind : kindOf (FileTree.nameText (FileTree.lastName (ofText "a.ron"))) text = .weights := by
    rw [nameText_oneFile]
    decide +kernel
  exact ⟨honly,
    (file_dispatch (get?_oneFile text) (Bytes.text?_ofText text) honly ∅).2.1 hkind⟩

/-- Formulas one of which is described by the words of another kind are refused. -/
theorem described_formulas_refused :
    let text :=
      "(formulas: [(name: \"top\", expression: \"max\", description: \"for active_formula: top\")])"
    let loaded := (oneFile text).loadFileAt (ofText "a.ron") ∅
    ReadableOnlyAs .formulas text ∧
    (load ∅ .formulas text).error = none ∧
    loaded.error = some .malformedRon ∧
    loaded ≠ load ∅ .formulas text := by
  intro text loaded
  have htext : (load ∅ .formulas text).error = none := by decide +kernel
  have hfile : loaded.error = some .malformedRon := by
    unfold loaded
    rw [loadFileAt_eq (get?_oneFile text) (Bytes.text?_ofText text), nameText_oneFile]
    decide +kernel
  refine ⟨⟨by decide, by decide +kernel, fun k => by cases k <;> decide +kernel⟩, htext, hfile,
    fun h => ?_⟩
  rw [h, htext] at hfile
  cases hfile

end Definitions

end ItemBudget
