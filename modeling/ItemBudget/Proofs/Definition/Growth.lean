import ItemBudget.Definition.FileTree
import ItemBudget.Proofs.Definition.Additions
import ItemBudget.Proofs.Outcome
import Mathlib.Logic.Relation

/-!
# Definitions only grow

Whatever a loader is given, it adds one thing after the other to what is defined. `Adds` says what
may be added and when, and `Grows` is any number of additions. Every load grows the definitions,
also one that is refused: `grows_loaded`. An addition puts a valid entry under a free key, so loaded
definitions stay well-formed and keep every entry: `wellFormed_and_kept`.
-/

namespace ItemBudget

namespace Definitions

/-! ## Additions -/

/-- One thing is added that was not defined. -/
inductive Adds (d : Definitions) : Definitions → Prop
  | formula {f : NamedFormula} (hnew : Table.get? d.formulas f.name = none)
      (hvalid : Formula.validate f.expression = .ok ()) :
    Adds d { d with formulas := Table.insert d.formulas f.name f }
  | attribute {a : AttributeDefinition} (hnew : Table.get? d.attributes a.name = none) :
    Adds d { d with attributes := Table.insert d.attributes a.name a }
  | weight {name : String} {x : Float} (hnew : Table.get? d.weights name = none)
      (hfinite : x.isFinite = true) (hsign : 0.0 ≤ x) :
    Adds d { d with weights := Table.insert d.weights name x }
  | allowance {rarity className : String} {x : Float}
      (hnew : AllowanceTable.get? d.allowances rarity className = none)
      (hfinite : x.isFinite = true) :
    Adds d { d with allowances := AllowanceTable.set d.allowances rarity className x }
  | active {formula : String} (hnew : d.activeFormula = none) :
    Adds d { d with activeFormula := some formula }

/-- Any number of things is added. -/
abbrev Grows : Definitions → Definitions → Prop := Relation.ReflTransGen Adds

/-- A load that only adds. -/
def Growing (f : Definitions → Loaded) : Prop := ∀ d, Grows d (f d).definitions

variable {d d' : Definitions} {e : Entry} {es : List Entry}

theorem adds_put (hvalid : e.Valid) (hnew : d.at? e.key = none) : Adds d (d.put e) := by
  cases e with
  | formula f => exact .formula (Option.map_eq_none_iff.1 hnew) hvalid
  | itemAttribute a => exact .attribute (Option.map_eq_none_iff.1 hnew)
  | weight name x => exact .weight (Option.map_eq_none_iff.1 hnew) hvalid.1 hvalid.2
  | allowance rarity className x => exact .allowance (Option.map_eq_none_iff.1 hnew) hvalid
  | active formula => exact .active (Option.map_eq_none_iff.1 hnew)

theorem Adds.exists_put (h : Adds d d') :
    ∃ e : Entry, e.Valid ∧ d.at? e.key = none ∧ d' = d.put e := by
  obtain @⟨f, hnew, hvalid⟩ | @⟨a, hnew⟩ | @⟨name, x, hnew, hfinite, hsign⟩ |
    @⟨rarity, className, x, hnew, hfinite⟩ | @⟨formula, hnew⟩ := h
  · exact ⟨.formula f, hvalid, Option.map_eq_none_iff.2 hnew, rfl⟩
  · exact ⟨.itemAttribute a, trivial, Option.map_eq_none_iff.2 hnew, rfl⟩
  · exact ⟨.weight name x, ⟨hfinite, hsign⟩, Option.map_eq_none_iff.2 hnew, rfl⟩
  · exact ⟨.allowance rarity className x, hfinite, Option.map_eq_none_iff.2 hnew, rfl⟩
  · exact ⟨.active formula, trivial, Option.map_eq_none_iff.2 hnew, rfl⟩

theorem grows_putAll (h : d.Takes es) : Grows d (d.putAll es) := by
  induction es generalizing d with
  | nil => exact .refl
  | cons e es ih =>
    obtain ⟨⟨hvalid, hnew⟩, hrest⟩ := takes_cons.1 h
    exact .head (adds_put hvalid hnew) (ih hrest)

theorem Puts.growing {f : Definitions → Loaded} (h : Puts f es) : Growing f := by
  intro d
  rcases h d with ⟨htakes, heq⟩ | ⟨-, error, heq⟩
  · rw [heq]
    exact grows_putAll htakes
  · rw [heq]
    exact .refl

theorem growing_addEach {α : Type} {add : Definitions → α → Loaded}
    (hadd : ∀ x, Growing (add · x)) (xs : List α) : Growing (addEach add · xs) := by
  intro d
  induction xs generalizing d with
  | nil => exact .refl
  | cons x xs ih =>
    have hx : Grows d (add d x).definitions := hadd x d
    simp only [addEach]
    generalize add d x = r at hx ⊢
    match r with
    | ⟨d', none⟩ => exact hx.trans (ih d')
    | ⟨d', some e⟩ => exact hx

/-! ## Texts -/

theorem growing_addRead {α : Type} {add : Definitions → α → Loaded} (hadd : ∀ x, Growing (add · x))
    (x? : Option α) : Growing (addRead add · x?) := by
  intro d
  cases x? with
  | none => exact .refl
  | some x => exact hadd x d

theorem growing_loadSingle (text : String) : Growing (loadSingle · text) := by
  intro d
  simp only [loadSingle]
  cases document? NamedFormula.ofDocument? text with
  | some f => exact (puts_addFormula f).growing d
  | none =>
    cases document? AttributeDefinition.ofDocument? text with
    | some a => exact (puts_addAttribute a).growing d
    | none => exact .refl

theorem growing_load (kind : DefinitionKind) (text : String) : Growing (load · kind text) := by
  intro d
  cases kind with
  | formulas => exact growing_addRead (growing_addEach fun f => (puts_addFormula f).growing) _ d
  | attributes => exact growing_addRead (growing_addEach fun a => (puts_addAttribute a).growing) _ d
  | weights => exact growing_addRead (fun t => (puts_addWeights t).growing) _ d
  | allowances => exact growing_addRead (fun t => (puts_addAllowances t).growing) _ d
  | activeFormula => exact growing_addRead (fun text => (puts_activate text).growing) _ d
  | single => exact growing_loadSingle text d

end Definitions

/-! ## Files -/

namespace FileTree

open Definitions (Growing Grows)

theorem growing_loadFile (name : Bytes) (t : FileTree) : Growing (loadFile name t) := by
  intro d
  cases t with
  | directory es => exact .refl
  | file bytes =>
    simp only [loadFile, loadBytes]
    cases Bytes.text? bytes with
    | none => exact .refl
    | some text => exact Definitions.growing_load _ text d

theorem growing_runAll {fs : List (Definitions → Loaded)} (h : ∀ f ∈ fs, Growing f) :
    Growing (runAll fs) := by
  intro d
  induction fs generalizing d with
  | nil => exact .refl
  | cons f fs ih =>
    rw [List.forall_mem_cons] at h
    have hf := h.1 d
    simp only [runAll]
    generalize f d = r at hf ⊢
    match r with
    | ⟨d', none⟩ => exact hf.trans (ih h.2 d')
    | ⟨d', some e⟩ => exact hf

-- the recursion is that of the tree: a directory, and the list of its entries
mutual

theorem growing_loadDirectory : ∀ t : FileTree, Growing (loadDirectory t)
  | file _ => fun d => .refl
  | directory es => by
    rw [loadDirectory]
    refine growing_runAll fun f hf => ?_
    obtain ⟨e, he, rfl⟩ := List.mem_map.1 hf
    exact growing_entryLoads es e (List.mem_mergeSort.1 he)

theorem growing_entryLoads :
    ∀ es : List (Bytes × FileTree), ∀ e ∈ entryLoads es, Growing e.2
  | [], _, h => by cases h
  | (n, t) :: es, e, h => by
    rw [entryLoads.eq_def, List.mem_cons] at h
    rcases h with rfl | h
    · dsimp only
      split
      · exact growing_loadFile n t
      · cases t with
        | file bytes => exact fun d => .refl
        | directory fs => exact growing_loadDirectory (directory fs)
    · exact growing_entryLoads es e h

end

end FileTree

/-! ## Loads -/

/-- A call of a loader. -/
inductive Load where
  | text (kind : DefinitionKind) (text : String)
  | file (tree : FileTree) (path : Bytes)
  | directory (tree : FileTree) (path : Bytes)

namespace Load

/-- What a call makes of the definitions. -/
def run : Load → Definitions → Loaded
  | text kind t, d => d.load kind t
  | file tree path, d => tree.loadFileAt path d
  | directory tree path, d => tree.loadDirectoryAt path d

theorem growing_run (l : Load) : Definitions.Growing l.run := by
  intro d
  cases l with
  | text kind t => exact Definitions.growing_load kind t d
  | file tree path =>
    simp only [run, FileTree.loadFileAt]
    cases FileTree.get? path tree with
    | none => exact .refl
    | some f => exact FileTree.growing_loadFile _ f d
  | directory tree path =>
    simp only [run, FileTree.loadDirectoryAt]
    cases FileTree.get? path tree with
    | none => exact .refl
    | some f => exact FileTree.growing_loadDirectory f d

end Load

/-- What is defined after calls of a loader, those that are refused included. -/
def Definitions.loaded (d : Definitions) (calls : List Load) : Definitions :=
  calls.foldl (fun d l => (l.run d).definitions) d

/-- No call of a loader is refused. -/
def Definitions.accepts (d : Definitions) : List Load → Bool
  | [] => true
  | l :: calls => (l.run d).error.isNone && (l.run d).definitions.accepts calls

/-- **Loading only adds**, whatever the calls are and whether they are refused. -/
theorem Definitions.grows_loaded (d : Definitions) (calls : List Load) :
    Grows d (d.loaded calls) := by
  induction calls generalizing d with
  | nil => exact .refl
  | cons l calls ih => exact (l.growing_run d).trans (ih _)

/-! ## What loaded definitions hold -/

namespace Definitions

open Entry (Key)

variable {d d' : Definitions}

/-- Every entry stands under its own key and is valid. -/
def WellFormed (d : Definitions) : Prop :=
  ∀ (k : Key) (e : Entry), d.at? k = some e → e.key = k ∧ e.Valid

/-- Every entry of the first definitions stands in the second ones as it was. -/
def Keeps (d d' : Definitions) : Prop :=
  ∀ (k : Key) (e : Entry), d.at? k = some e → d'.at? k = some e

theorem wellFormed_empty : WellFormed ∅ := by
  intro k e h
  rw [at?_empty] at h
  cases h

theorem Adds.wellFormed (h : Adds d d') (hd : d.WellFormed) : d'.WellFormed := by
  obtain ⟨added, hvalid, -, rfl⟩ := h.exists_put
  intro k e he
  by_cases hk : k = added.key
  · subst hk
    rw [at?_put_key] at he
    cases he
    exact ⟨rfl, hvalid⟩
  · rw [at?_put_of_ne hk] at he
    exact hd k e he

theorem Adds.keeps (h : Adds d d') : d.Keeps d' := by
  obtain ⟨added, -, hnew, rfl⟩ := h.exists_put
  intro k e he
  -- the key of the new entry was free
  have hk : k ≠ added.key := by
    rintro rfl
    rw [hnew] at he
    cases he
  rw [at?_put_of_ne hk]
  exact he

theorem wellFormed_of_grows (h : Grows d d') (hd : d.WellFormed) : d'.WellFormed := by
  induction h with
  | refl => exact hd
  | tail _ hadds ih => exact hadds.wellFormed ih

theorem keeps_of_grows (h : Grows d d') : d.Keeps d' := by
  induction h with
  | refl => exact fun _ _ he => he
  | tail _ hadds ih => exact fun k e he => hadds.keeps k e (ih k e he)

/-- Every formula of loaded definitions is valid and stands under its own name. -/
theorem valid_of_grows (h : Grows ∅ d) {name : String} {f : NamedFormula}
    (hf : Table.get? d.formulas name = some f) :
    f.name = name ∧ Formula.validate f.expression = .ok () := by
  have hentry : d.at? (.formula name) = some (.formula f) := congrArg (Option.map _) hf
  obtain ⟨hkey, hvalid⟩ := wellFormed_of_grows h wellFormed_empty _ _ hentry
  exact ⟨Key.formula.inj hkey, hvalid⟩

/-- **Loaded definitions are well-formed and only grow**: after any calls of a loader, refused or
not, every entry stands under its own key and is valid, and no later call takes an entry away or
changes it. -/
theorem wellFormed_and_kept (calls later : List Load) :
    (loaded ∅ calls).WellFormed ∧ (loaded ∅ calls).Keeps ((loaded ∅ calls).loaded later) :=
  ⟨wellFormed_of_grows (grows_loaded ∅ calls) wellFormed_empty,
    keeps_of_grows (grows_loaded (loaded ∅ calls) later)⟩

end Definitions

end ItemBudget
