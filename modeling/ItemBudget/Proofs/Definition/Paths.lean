import ItemBudget.Definition.FileTree
import ItemBudget.Proofs.Table
import Mathlib.Tactic.SplitIfs

/-!
# Paths

A path is split at its separators, so a name put after it is its last one (`names_join`). `Below`
says what stands below a tree at which names; in a tree whose names are proper it is found there,
from any path that leads to the tree (`get?_join`).
-/

namespace ItemBudget.FileTree

/-! ## What is below a tree -/

/-- A name that an entry of a directory can have. -/
structure IsName (name : Bytes) : Prop where
  nonempty : name ≠ []
  not_here : name ≠ Bytes.ofText "."
  not_above : name ≠ Bytes.ofText ".."
  one : separator ∉ name

theorem isName_iff {name : Bytes} :
    IsName name ↔ name ≠ [] ∧ name ≠ Bytes.ofText "." ∧ name ≠ Bytes.ofText ".." ∧
      separator ∉ name :=
  ⟨fun h => ⟨h.nonempty, h.not_here, h.not_above, h.one⟩, fun h => ⟨h.1, h.2.1, h.2.2.1, h.2.2.2⟩⟩

instance (name : Bytes) : Decidable (IsName name) := decidable_of_iff _ isName_iff.symm

/-- What stands below a tree, and the names that lead to it. -/
inductive Below : FileTree → List Bytes → FileTree → Prop
  | here (t : FileTree) : Below t [] t
  | entry {es : List (Bytes × FileTree)} {n : Bytes} {t u : FileTree} {p : List Bytes}
    (mem : (n, t) ∈ es) (below : Below t p u) : Below (.directory es) (n :: p) u

/-- In every directory each entry has a name, and no other entry has it. -/
structure Proper (t : FileTree) : Prop where
  distinct : ∀ p es, Below t p (.directory es) → (es.map Prod.fst).Nodup
  named : ∀ p es, Below t p (.directory es) → ∀ e ∈ es, IsName e.1

theorem proper_file (bytes : Bytes) : Proper (.file bytes) :=
  ⟨fun _ _ h => (nomatch h), fun _ _ h => (nomatch h)⟩

/-- A directory has proper names when its entries do. -/
theorem proper_directory_iff {es : List (Bytes × FileTree)} :
    Proper (.directory es) ↔
      (es.map Prod.fst).Nodup ∧ ∀ e ∈ es, IsName e.1 ∧ Proper e.2 := by
  constructor
  · intro h
    refine ⟨h.distinct [] es (.here _), fun e he => ⟨h.named [] es (.here _) e he, ?_⟩⟩
    exact ⟨fun p fs hbelow => h.distinct (e.1 :: p) fs (.entry he hbelow),
      fun p fs hbelow => h.named (e.1 :: p) fs (.entry he hbelow)⟩
  · rintro ⟨hdistinct, hentries⟩
    constructor
    · intro p fs hbelow
      cases hbelow with
      | here => exact hdistinct
      | entry hmem hbelow => exact (hentries _ hmem).2.distinct _ _ hbelow
    · intro p fs hbelow
      cases hbelow with
      | here => exact fun e he => (hentries e he).1
      | entry hmem hbelow => exact (hentries _ hmem).2.named _ _ hbelow

/-! ## One name more -/

/-- A path with one name more. -/
def join (path name : Bytes) : Bytes :=
  if path = [] then name else path ++ separator :: name

section Join

variable {path name : Bytes} {es : List (Bytes × FileTree)} {t u : FileTree}

theorem names_of_isName (h : IsName name) : names name = [name] :=
  List.splitOn_eq_singleton h.one

theorem names_join (h : IsName name) (hpath : path ≠ []) :
    names (join path name) = names path ++ [name] := by
  rw [join, if_neg hpath, names, List.splitOn_append_cons_self, ← names, ← names,
    names_of_isName h]

theorem lastName_of_isName (h : IsName name) : lastName name = name := by
  rw [lastName, names_of_isName h]
  rfl

theorem lastName_join (h : IsName name) : lastName (join path name) = name := by
  by_cases hpath : path = []
  · rw [join, if_pos hpath, lastName_of_isName h]
  · rw [lastName, names_join h hpath, List.getLastD_concat]

theorem isHere_eq_false (h : IsName name) : isHere name = false := by
  simp [isHere, h.nonempty, h.not_here]

theorem isAbove_eq_false (h : IsName name) : isAbove name = false :=
  decide_eq_false h.not_above

theorem walk_cons (above : List FileTree) (n : Bytes) (p : List Bytes) :
    walk above (n :: p) (.directory es) =
      if isHere n then walk above p (.directory es)
      else if isAbove n then above.head?.bind (walk above.tail p)
      else (es.lookup n).bind (walk (.directory es :: above) p) := by
  cases above <;> rw [walk] <;> rfl

theorem walk_name (h : IsName name) (above : List FileTree) :
    walk above [name] (.directory es) = es.lookup name := by
  rw [walk_cons, isHere_eq_false h, if_neg Bool.false_ne_true, isAbove_eq_false h,
    if_neg Bool.false_ne_true]
  cases es.lookup name <;> rfl

/-- After a path to a directory a name leads to its entry. -/
theorem walk_concat (h : IsName name) {above : List FileTree} {p : List Bytes}
    (hwalk : walk above p t = some (.directory es)) :
    walk above (p ++ [name]) t = es.lookup name := by
  induction p generalizing above t with
  | nil =>
    rw [walk] at hwalk
    cases hwalk
    exact walk_name h above
  | cons n p ih =>
    cases t with
    | file bytes => cases hwalk
    | directory fs =>
      rw [walk_cons] at hwalk
      rw [List.cons_append, walk_cons]
      split_ifs at hwalk ⊢
      · exact ih hwalk
      · obtain ⟨t, ht, hwalk⟩ := Option.bind_eq_some_iff.1 hwalk
        rw [ht, Option.bind_some, ih hwalk]
      · obtain ⟨t, ht, hwalk⟩ := Option.bind_eq_some_iff.1 hwalk
        rw [ht, Option.bind_some, ih hwalk]

theorem head?_join (h : IsName name) (hpath : path.head? ≠ some separator) :
    (join path name).head? ≠ some separator := by
  unfold join
  split_ifs with hempty
  · exact fun hhead => h.one (List.mem_of_mem_head? hhead)
  · rwa [List.head?_append_of_ne_nil _ hempty]

/-- From a path to a directory an entry is found by its name. -/
theorem get?_join (h : IsName name) (hpath : t.get? path = some (.directory es))
    (hentry : es.lookup name = some u) : t.get? (join path name) = some u := by
  unfold get? at hpath ⊢
  by_cases hstart : path.head? = some separator
  · rw [if_pos hstart] at hpath
    cases hpath
  · rw [if_neg hstart] at hpath
    rw [if_neg (head?_join h hstart)]
    by_cases hempty : path = []
    · subst hempty
      rw [join, if_pos rfl, names_of_isName h, ← hentry]
      cases t with
      | file bytes => cases hpath
      | directory fs =>
        cases hpath
        exact walk_name h []
    · rw [names_join h hempty, walk_concat h hpath, hentry]

end Join

end ItemBudget.FileTree
