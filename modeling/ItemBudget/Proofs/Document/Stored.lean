import ItemBudget.Document.Definition
import ItemBudget.Json.Document
import ItemBudget.Proofs.Json.Written

/-!
# Stored items and definitions

What `toJson` writes of an item, of the definition of an attribute or of a named formula is read as
the same value, also through the text. Every field is written, each under its own name, so a record
is read field by field and no default comes in (`record?_ofFields`).
-/

namespace ItemBudget

open Json (Node)

/-! ## Values -/

@[simp]
theorem standard_ofString (s : String) : (Node.ofString s).Standard := .ofString s

@[simp]
theorem text?_ofString (s : String) : Document.text? (Node.ofString s) = some s := rfl

@[simp]
theorem standard_flag (b : Bool) : (Node.flag b).Standard := .flag b

@[simp]
theorem flag?_flag (b : Bool) : Document.flag? (Node.flag b) = some b := rfl

section Lists

variable {α : Type} {toJson : α → Node} {read : Node → Option α}

@[simp]
theorem standard_list (h : ∀ a, (toJson a).Standard) (as : List α) :
    (Node.array (as.map toJson)).Standard := by
  refine .array fun e he => ?_
  obtain ⟨a, -, rfl⟩ := List.mem_map.1 he
  exact h a

@[simp]
theorem listOf?_list (h : ∀ a, read (toJson a) = some a) (as : List α) :
    Document.listOf? read (Node.array (as.map toJson)) = some as := by
  show (as.map toJson).mapM read = some as
  induction as with
  | nil => rfl
  | cons a as ih =>
    rw [List.map_cons, List.mapM_cons, h, ih]
    rfl

end Lists

/-! ## Records -/

theorem keyed?_named (fs : List (String × Node)) :
    Json.keyed? (fs.map fun f => (some f.1, f.2)) = some fs := by
  unfold Json.keyed?
  induction fs with
  | nil => rfl
  | cons f fs ih =>
    rw [List.map_cons, List.mapM_cons, ih]
    rfl

/-- A record with all of its fields is read as these fields. -/
theorem record?_ofFields (name : String) {known : List String} {fs : List (String × Node)}
    (hk : fs.map Prod.fst = known) (hn : known.Nodup) :
    Document.record? name known (Node.ofFields fs) = some ⟨fs, false⟩ := by
  subst hk
  show (Json.keyed? (fs.map fun f => (some f.1, f.2))).bind (Fields.ofNamed? _) = _
  have hall : (fs.filter fun f => decide (f.1 ∈ fs.map Prod.fst)) = fs :=
    List.filter_eq_self.2 fun f hf => decide_eq_true (List.mem_map_of_mem hf)
  rw [keyed?_named, Option.bind_some, Fields.ofNamed?]
  simp only [hall, hn, if_true]

attribute [local simp] Fields.orElse Fields.required Fields.get? List.lookup

/-! ## Items -/

@[simp]
theorem BoundKind.standard_toJson (k : BoundKind) : k.toJson.Standard := .ofString _

@[simp]
theorem BoundKind.ofDocument?_toJson (k : BoundKind) : ofDocument? k.toJson = some k := by
  cases k with
  | _ => rfl

@[simp]
theorem Category.standard_toJson (c : Category) : c.toJson.Standard := .ofString _

@[simp]
theorem Category.ofDocument?_toJson (c : Category) : ofDocument? c.toJson = some c := by
  cases c with
  | _ => rfl

@[simp]
theorem Bound.standard_toJson (b : Bound) : b.toJson.Standard := .ofFields (by simp)

@[simp]
theorem Bound.ofDocument?_toJson (b : Bound) : ofDocument? b.toJson = some b := by
  unfold ofDocument? toJson
  rw [record?_ofFields]
  · simp
  · rfl
  · simp

@[simp]
theorem Attribute.standard_toJson (a : Attribute) : a.toJson.Standard := .ofFields (by simp)

@[simp]
theorem Attribute.ofDocument?_toJson (a : Attribute) : ofDocument? a.toJson = some a := by
  unfold ofDocument? toJson
  rw [record?_ofFields]
  · simp
  · rfl
  · simp

theorem Item.standard_toJson (i : Item) : i.toJson.Standard := .ofFields (by simp)

theorem Item.ofDocument?_toJson (i : Item) : ofDocument? i.toJson = some i := by
  unfold ofDocument? toJson
  rw [record?_ofFields]
  · simp
  · rfl
  · simp

/-! ## Definitions -/

theorem AttributeDefinition.standard_toJson (d : AttributeDefinition) : d.toJson.Standard :=
  .ofFields (by simp)

theorem AttributeDefinition.ofDocument?_toJson (d : AttributeDefinition) :
    ofDocument? d.toJson = some d := by
  unfold ofDocument? toJson
  rw [record?_ofFields]
  · simp
  · rfl
  · simp

theorem NamedFormula.standard_toJson (f : NamedFormula) : f.toJson.Standard :=
  .ofFields (by simp)

theorem NamedFormula.ofDocument?_toJson (f : NamedFormula) : ofDocument? f.toJson = some f := by
  unfold ofDocument? toJson
  rw [record?_ofFields]
  · simp
  · rfl
  · simp

/-- **What is stored is read back**: the text of an item is read as the item, whatever strings it
has and however many attributes and bounds, and so are those of the definition of an attribute and
of a named formula. -/
theorem stored_reads_back :
    (∀ i : Item, (Json.read? (Json.compact i.toJson)).bind Item.ofDocument? = some i) ∧
    (∀ d : AttributeDefinition,
      (Json.read? (Json.compact d.toJson)).bind AttributeDefinition.ofDocument? = some d) ∧
    ∀ f : NamedFormula,
      (Json.read? (Json.compact f.toJson)).bind NamedFormula.ofDocument? = some f := by
  refine ⟨fun i => ?_, fun d => ?_, fun f => ?_⟩
  · rw [Json.read?_compact i.standard_toJson, Option.bind_some, i.ofDocument?_toJson]
  · rw [Json.read?_compact d.standard_toJson, Option.bind_some, d.ofDocument?_toJson]
  · rw [Json.read?_compact f.standard_toJson, Option.bind_some, f.ofDocument?_toJson]

end ItemBudget
