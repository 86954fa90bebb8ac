import ItemBudget.Proofs.Definition.Paths
import Mathlib.Data.List.Sort

/-!
# A directory as a list of files

A directory is loaded level by level, each in the order of its names. `files` lists what is passed
on the way, with the names that lead to it. These are all files below the directory
(`mem_files_iff`), and where names are proper they come in the order of their paths
(`pairwise_files`), so the directory is loaded like the list of its files
(`directory_loads_files`).
-/

namespace ItemBudget.FileTree

/-- By induction on the tree: what holds of a file, and of a directory when it holds of its
entries. -/
theorem induction {P : FileTree → Prop} (file : ∀ bytes, P (file bytes))
    (directory : ∀ es : List (Bytes × FileTree), (∀ e ∈ es, P e.2) → P (directory es))
    (t : FileTree) : P t :=
  @FileTree.rec P (fun es => ∀ e ∈ es, P e.2) (fun e => P e.2) file directory
    (fun _ h => absurd h List.not_mem_nil)
    (fun _ _ he hes => List.forall_mem_cons.2 ⟨he, hes⟩) (fun _ _ h => h) t

/-! ## Things under names -/

section ByName

variable {α β : Type}

theorem byName_map (f : Bytes × α → β) (es : List (Bytes × α)) :
    byName (es.map fun e => (e.1, f e)) = (byName es).map fun e => (e.1, f e) := by
  unfold byName
  rw [List.map_mergeSort]
  exact fun _ _ _ _ => rfl

theorem mem_byName {e : Bytes × α} {es : List (Bytes × α)} : e ∈ byName es ↔ e ∈ es :=
  List.mem_mergeSort

/-- Distinct names ascend. -/
theorem pairwise_byName {es : List (Bytes × α)} (h : (es.map Prod.fst).Nodup) :
    (byName es).Pairwise fun a b => a.1 < b.1 := by
  have hsorted : (byName es).Pairwise fun a b => decide (a.1 ≤ b.1) = true := by
    refine List.pairwise_mergeSort ?_ ?_ es
    · intro a b c hab hbc
      exact decide_eq_true (List.le_trans (of_decide_eq_true hab) (of_decide_eq_true hbc))
    · intro a b
      simpa using List.le_total a.1 b.1
  have hperm : ((byName es).map Prod.fst).Perm (es.map Prod.fst) :=
    (List.mergeSort_perm es _).map Prod.fst
  have hdistinct := List.pairwise_map.1 (hperm.nodup_iff.2 h)
  refine (hsorted.and hdistinct).imp fun hab => ?_
  exact Std.lt_of_le_of_ne (of_decide_eq_true hab.1) hab.2

end ByName

/-! ## The files below a tree -/

/-- A file: the names that lead to it, and what it holds. -/
abbrev Leaf : Type := List Bytes × Bytes

/-- The file seen from the directory above. -/
def Leaf.under (n : Bytes) (f : Leaf) : Leaf := (n :: f.1, f.2)

mutual

/-- The files below a tree in the order in which they are met. -/
def files : FileTree → List Leaf
  | file bytes => [([], bytes)]
  | directory es => (byName (entryFiles es)).flatMap Prod.snd

/-- The files below every entry, with its name. -/
def entryFiles : List (Bytes × FileTree) → List (Bytes × List Leaf)
  | [] => []
  | (n, t) :: es => (n, (files t).map (Leaf.under n)) :: entryFiles es

end

theorem entryFiles_eq (es : List (Bytes × FileTree)) :
    entryFiles es = es.map fun e => (e.1, (files e.2).map (Leaf.under e.1)) := by
  induction es with
  | nil => rw [entryFiles, List.map_nil]
  | cons e es ih => rw [entryFiles, ih, List.map_cons]

theorem files_directory (es : List (Bytes × FileTree)) :
    files (directory es) = (byName es).flatMap fun e => (files e.2).map (Leaf.under e.1) := by
  rw [files, entryFiles_eq, byName_map, List.flatMap_map]

/-- **The files are all files below the tree.** -/
theorem mem_files_iff {t : FileTree} {f : Leaf} : f ∈ files t ↔ Below t f.1 (.file f.2) := by
  induction t using FileTree.induction generalizing f with
  | file bytes =>
    rw [files, List.mem_singleton]
    constructor
    · rintro rfl
      exact .here _
    · intro h
      obtain ⟨p, content⟩ := f
      cases h
      rfl
  | directory es ih =>
    rw [files_directory, List.mem_flatMap]
    constructor
    · rintro ⟨e, he, hf⟩
      obtain ⟨g, hg, rfl⟩ := List.mem_map.1 hf
      have hmem := mem_byName.1 he
      exact .entry hmem ((ih e hmem).1 hg)
    · intro h
      obtain ⟨p, content⟩ := f
      cases h with
      | @entry _ n t _ p hmem hbelow =>
        exact ⟨(n, t), mem_byName.2 hmem,
          List.mem_map.2 ⟨(p, content), (ih (n, t) hmem).2 hbelow, rfl⟩⟩

/-- **The files are met in the order of their paths.** -/
theorem pairwise_files {t : FileTree} (h : Proper t) :
    (files t).Pairwise fun f g => f.1 < g.1 := by
  induction t using FileTree.induction with
  | file bytes =>
    rw [files]
    exact List.pairwise_singleton _ _
  | directory es ih =>
    obtain ⟨hdistinct, hentries⟩ := proper_directory_iff.1 h
    rw [files_directory, List.pairwise_flatMap]
    constructor
    · intro e he
      have hmem := mem_byName.1 he
      refine List.pairwise_map.2 ((ih e hmem (hentries e hmem).2).imp fun {f g} hfg => ?_)
      exact List.cons_lt_cons_iff.2 (.inr ⟨rfl, hfg⟩)
    · refine (pairwise_byName hdistinct).imp fun {a b} hab x hx y hy => ?_
      obtain ⟨f, -, rfl⟩ := List.mem_map.1 hx
      obtain ⟨g, -, rfl⟩ := List.mem_map.1 hy
      exact List.cons_lt_cons_iff.2 (.inl hab)

/-! ## Loads in order -/

/-- A load, and then another one if it was not refused. -/
def andThen (l : Loaded) (f : Definitions → Loaded) : Loaded :=
  match l with
  | ⟨d, none⟩ => f d
  | refused => refused

theorem runAll_cons (f : Definitions → Loaded) (fs : List (Definitions → Loaded))
    (d : Definitions) : runAll (f :: fs) d = andThen (f d) (runAll fs) := rfl

theorem andThen_andThen (l : Loaded) (f g : Definitions → Loaded) :
    andThen (andThen l f) g = andThen l fun d => andThen (f d) g := by
  obtain ⟨d, error⟩ := l
  cases error <;> rfl

theorem runAll_singleton (f : Definitions → Loaded) : runAll [f] = f := by
  funext d
  rw [runAll_cons]
  obtain ⟨d', error⟩ := f d
  cases error <;> rfl

theorem runAll_append (fs gs : List (Definitions → Loaded)) (d : Definitions) :
    runAll (fs ++ gs) d = andThen (runAll fs d) (runAll gs) := by
  induction fs generalizing d with
  | nil => rfl
  | cons f fs ih =>
    rw [List.cons_append, runAll_cons, runAll_cons, andThen_andThen]
    congr 1
    funext d'
    exact ih d'

/-- Loads in groups are loads in order. -/
theorem runAll_flatMap {α : Type} (f : α → List (Definitions → Loaded)) (xs : List α) :
    runAll (xs.flatMap f) = runAll (xs.map fun x => runAll (f x)) := by
  funext d
  induction xs generalizing d with
  | nil => rfl
  | cons x xs ih =>
    rw [List.flatMap_cons, runAll_append, List.map_cons, runAll_cons]
    congr 1
    funext d'
    exact ih d'

/-! ## The load of a directory -/

/-- The load of an entry of a directory. -/
def loadEntry (n : Bytes) (t : FileTree) : Definitions → Loaded :=
  if hasExtension n then loadFile n t
  else match t with
    | file _ => Definitions.accept
    | directory es => loadDirectory (directory es)

theorem entryLoads_eq (es : List (Bytes × FileTree)) :
    entryLoads es = es.map fun e => (e.1, loadEntry e.1 e.2) := by
  induction es with
  | nil => rw [entryLoads, List.map_nil]
  | cons e es ih =>
    obtain ⟨n, t⟩ := e
    cases t <;> rw [entryLoads, ih, List.map_cons, loadEntry]

theorem loadDirectory_directory (es : List (Bytes × FileTree)) :
    loadDirectory (directory es) = runAll ((byName es).map fun e => loadEntry e.1 e.2) := by
  rw [loadDirectory, entryLoads_eq, byName_map, List.map_map]
  rfl

/-- The load of a file by its own name. -/
def Leaf.load (f : Leaf) : Definitions → Loaded := loadBytes (f.1.getLastD []) f.2

/-- The file has the extension of definitions. -/
def Leaf.isDefinition (f : Leaf) : Bool := hasExtension (f.1.getLastD [])

/-- No directory below a tree is named like a file of definitions. -/
def PlainDirectories (t : FileTree) : Prop :=
  ∀ p n es, Below t (p ++ [n]) (.directory es) → hasExtension n = false

theorem plainDirectories_file (bytes : Bytes) : PlainDirectories (.file bytes) :=
  fun p n es h => by cases p <;> cases h

theorem plainDirectories_directory_iff {es : List (Bytes × FileTree)} :
    PlainDirectories (.directory es) ↔
      ∀ e ∈ es, (∀ fs, e.2 = directory fs → hasExtension e.1 = false) ∧ PlainDirectories e.2 := by
  constructor
  · intro h e he
    exact ⟨fun fs hfs => h [] e.1 fs (.entry he (hfs ▸ .here _)),
      fun p n fs hbelow => h (e.1 :: p) n fs (.entry he hbelow)⟩
  · intro h p n fs hbelow
    cases p with
    | nil =>
      cases hbelow with
      | entry hmem hbelow =>
        cases hbelow
        exact (h _ hmem).1 fs rfl
    | cons m p =>
      cases hbelow with
      | entry hmem hbelow => exact (h _ hmem).2 p n fs hbelow

theorem ne_nil_of_mem_files {es : List (Bytes × FileTree)} {f : Leaf}
    (h : f ∈ files (directory es)) : f.1 ≠ [] := by
  intro hnil
  have hbelow := mem_files_iff.1 h
  rw [hnil] at hbelow
  cases hbelow

/-- The last name of a path is the same seen from the directory above. -/
theorem getLastD_under {f : Leaf} (h : f.1 ≠ []) (n : Bytes) :
    (f.under n).1.getLastD [] = f.1.getLastD [] := by
  obtain ⟨p, content⟩ := f
  cases p with
  | nil => exact (h rfl).elim
  | cons m p => rfl

/-- What is loaded of the files below a tree. -/
def loads (fs : List Leaf) : List (Definitions → Loaded) :=
  (fs.filter Leaf.isDefinition).map Leaf.load

theorem loads_under {es : List (Bytes × FileTree)} (n : Bytes) :
    loads ((files (directory es)).map (Leaf.under n)) = loads (files (directory es)) := by
  unfold loads
  rw [List.filter_map, List.map_map]
  have hfilter : (files (directory es)).filter (Leaf.isDefinition ∘ Leaf.under n) =
      (files (directory es)).filter Leaf.isDefinition :=
    List.filter_congr fun f hf => congrArg hasExtension (getLastD_under (ne_nil_of_mem_files hf) n)
  rw [hfilter]
  refine List.map_congr_left fun f hf => ?_
  have hname := getLastD_under (ne_nil_of_mem_files (List.mem_filter.1 hf).1) n
  exact congrArg (loadBytes · f.2) hname

/-- A directory is loaded like the files below it when its entries are. -/
theorem loadDirectory_of_entries {es : List (Bytes × FileTree)}
    (h : ∀ e ∈ es, loadEntry e.1 e.2 = runAll (loads ((files e.2).map (Leaf.under e.1)))) :
    loadDirectory (directory es) = runAll (loads (files (directory es))) := by
  rw [loadDirectory_directory, List.map_congr_left fun e he => h e (mem_byName.1 he),
    ← runAll_flatMap, files_directory]
  unfold loads
  rw [List.filter_flatMap, List.map_flatMap]

theorem loadEntry_eq {n : Bytes} {t : FileTree} (h : PlainDirectories t)
    (hn : ∀ es, t = directory es → hasExtension n = false) :
    loadEntry n t = runAll (loads ((files t).map (Leaf.under n))) := by
  induction t using FileTree.induction generalizing n with
  | file bytes =>
    have hname : Leaf.isDefinition (Leaf.under n ([], bytes)) = hasExtension n := rfl
    rw [files, List.map_singleton, loads, List.filter_singleton, hname, loadEntry]
    cases hasExtension n with
    | true => exact (runAll_singleton (loadBytes n bytes)).symm
    | false => rfl
  | directory es ih =>
    rw [loadEntry, hn es rfl, if_neg Bool.false_ne_true, loads_under]
    have hentries := plainDirectories_directory_iff.1 h
    exact loadDirectory_of_entries fun e he => ih e he (hentries e he).2 (hentries e he).1

/-- The file at a path is loaded by its own name. -/
theorem loadFileAt_eq_load {t u : FileTree} {path : Bytes} {p : List Bytes} {bytes : Bytes}
    (hpath : t.get? path = some u) (h : Proper u) (hbelow : Below u p (.file bytes)) (hp : p ≠ []) :
    t.loadFileAt (p.foldl join path) = Leaf.load (p, bytes) := by
  induction p generalizing u path with
  | nil => exact (hp rfl).elim
  | cons n p ih =>
    cases hbelow with
    | @entry es _ v _ _ hmem hbelow =>
      obtain ⟨hdistinct, hentries⟩ := proper_directory_iff.1 h
      obtain ⟨hname, hv⟩ := hentries _ hmem
      have hentry := get?_join hname hpath ((Table.mem_iff_lookup hdistinct).1 hmem)
      cases p with
      | nil =>
        cases hbelow
        funext d
        rw [List.foldl_cons, List.foldl_nil, loadFileAt, hentry, lastName_join hname]
        rfl
      | cons m p => exact ih hentry hv hbelow (List.cons_ne_nil m p)

/-- **A directory is loaded like the list of its files.** These are the files with the extension
anywhere below it, in the order of their paths, name by name and byte by byte, and they are loaded
one after the other up to the first that is refused. -/
theorem directory_loads_files {t : FileTree} {root : Bytes} {es : List (Bytes × FileTree)}
    (hroot : t.get? root = some (.directory es)) (h : Proper (.directory es))
    (hplain : PlainDirectories (.directory es)) :
    ∃ paths : List (List Bytes),
      (∀ p, p ∈ paths ↔ hasExtension (p.getLastD []) = true ∧
        ∃ bytes, Below (.directory es) p (.file bytes)) ∧
      paths.Pairwise (fun p q => p < q) ∧
      ∀ d, t.loadDirectoryAt root d =
        runAll (paths.map fun p => t.loadFileAt (p.foldl join root)) d := by
  refine ⟨((files (directory es)).filter Leaf.isDefinition).map Prod.fst, fun p => ?_, ?_,
    fun d => ?_⟩
  · constructor
    · intro hp
      obtain ⟨f, hf, rfl⟩ := List.mem_map.1 hp
      obtain ⟨hf, hname⟩ := List.mem_filter.1 hf
      exact ⟨hname, f.2, mem_files_iff.1 hf⟩
    · rintro ⟨hname, bytes, hbelow⟩
      exact List.mem_map.2 ⟨(p, bytes), List.mem_filter.2 ⟨mem_files_iff.2 hbelow, hname⟩, rfl⟩
  · exact List.pairwise_map.2 ((pairwise_files h).filter _)
  · have hentries : loadDirectory (directory es) = runAll (loads (files (directory es))) :=
      loadDirectory_of_entries fun e he =>
        have ⟨hnamed, hbelow⟩ := plainDirectories_directory_iff.1 hplain e he
        loadEntry_eq hbelow hnamed
    have hloads : loads (files (directory es)) =
        ((files (directory es)).filter Leaf.isDefinition).map
          ((fun p : List Bytes => t.loadFileAt (p.foldl join root)) ∘ Prod.fst) := by
      refine List.map_congr_left fun f hf => ?_
      have hfile := (List.mem_filter.1 hf).1
      exact (loadFileAt_eq_load hroot h (mem_files_iff.1 hfile) (ne_nil_of_mem_files hfile)).symm
    rw [loadDirectoryAt, hroot, List.map_map, ← hloads, ← hentries]

open Bytes (ofText)

/-- A file and a directory that is named like it up to the extension. -/
def nested : FileTree :=
  .directory [
    (ofText "a.ron", .file (ofText "(active_formula: \"max\")")),
    (ofText "notes", .file []),
    (ofText "a", .directory [
      (ofText "z.ron", .file (ofText "(weights: \x7b \"DAMAGE\": 2.0 \x7d)"))])]

theorem definitions_in_nested (p : List Bytes) :
    (hasExtension (p.getLastD []) = true ∧ ∃ bytes, Below nested p (.file bytes)) ↔
      p ∈ [[ofText "a", ofText "z.ron"], [ofText "a.ron"]] := by
  constructor
  · rintro ⟨hname, bytes, hbelow⟩
    cases hbelow with
    | entry hmem hbelow =>
      simp only [List.mem_cons, Prod.mk.injEq, List.not_mem_nil, or_false] at hmem
      obtain ⟨rfl, rfl⟩ | ⟨rfl, rfl⟩ | ⟨rfl, rfl⟩ := hmem
      · cases hbelow
        decide
      · cases hbelow
        exact absurd hname (by decide +kernel)
      · cases hbelow with
        | entry hmem hbelow =>
          simp only [List.mem_cons, Prod.mk.injEq, List.not_mem_nil, or_false] at hmem
          obtain ⟨rfl, rfl⟩ := hmem
          cases hbelow
          decide
  · simp only [List.mem_cons, List.not_mem_nil, or_false]
    rintro (rfl | rfl)
    · exact ⟨by decide +kernel, _,
        .entry (.tail _ (.tail _ (.head _))) (.entry (.head _) (.here _))⟩
    · exact ⟨by decide +kernel, _, .entry (.head _) (.here _)⟩

/-- The directory comes first: its name is the shorter one. -/
theorem nested_loads_files :
    let t := FileTree.directory [(ofText "defs", nested)]
    t.get? (ofText "defs") = some nested ∧ Proper nested ∧ PlainDirectories nested ∧
      ∀ d, t.loadDirectoryAt (ofText "defs") d =
        runAll [t.loadFileAt (ofText "defs/a/z.ron"), t.loadFileAt (ofText "defs/a.ron")] d := by
  intro t
  have hroot : t.get? (ofText "defs") = some nested := by
    rw [get?, if_neg (by decide), names_of_isName (by decide)]
    rfl
  have hproper : Proper nested := by
    simp only [nested, proper_directory_iff, List.forall_mem_cons, proper_file, List.not_mem_nil,
      false_implies, implies_true]
    decide
  have hplain : PlainDirectories nested := by
    simp only [nested, plainDirectories_directory_iff, List.forall_mem_cons, plainDirectories_file]
    have ha : hasExtension (ofText "a") = false := by decide +kernel
    exact ⟨⟨nofun, trivial⟩, ⟨nofun, trivial⟩, ⟨fun _ _ => ha, ⟨nofun, trivial⟩, nofun⟩, nofun⟩
  refine ⟨hroot, hproper, hplain, ?_⟩
  obtain ⟨paths, hmem, hsorted, hload⟩ := directory_loads_files hroot hproper hplain
  have hascending : [[ofText "a", ofText "z.ron"], [ofText "a.ron"]].Pairwise fun p q => p < q := by
    decide
  have hpaths : paths = [[ofText "a", ofText "z.ron"], [ofText "a.ron"]] :=
    List.Pairwise.eq_of_mem_iff hsorted hascending fun p => (hmem p).trans (definitions_in_nested p)
  rw [hpaths] at hload
  exact hload

end ItemBudget.FileTree
