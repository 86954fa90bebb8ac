import ItemBudget.Definition.Text

/-!
# Definition files

A tree of files and directories, and the paths in it: names separated by `/`, where a point is the
directory itself and two points the one above it. Names and paths are strings of bytes, and those of
a name need not encode a text. A directory is loaded by its entries in the order of their names: an
entry with the extension `ron` is loaded as a file, another directory is loaded in its turn, and
other files are passed over. Loading stops at the first error, and what was loaded before stays.
-/

namespace ItemBudget

/-- A string of bytes: what a file holds, a name or a path. -/
abbrev Bytes : Type := List UInt8

namespace Bytes

/-- The bytes of a text. -/
def ofText (text : String) : Bytes := text.toUTF8.data.toList

/-- The text that the bytes encode. -/
def text? (bytes : Bytes) : Option String := String.fromUTF8? ⟨bytes.toArray⟩

theorem text?_ofText (text : String) : text? (ofText text) = some text := by
  rw [text?, ofText, Array.toArray_toList]
  exact dif_pos text.isValidUTF8

end Bytes

/-- A file or a directory. -/
inductive FileTree where
  | file (bytes : Bytes)
  | directory (entries : List (Bytes × FileTree))

namespace FileTree

/-- The tree without entries. -/
def empty : FileTree := directory []

/-! ## Paths -/

/-- What stands between the names of a path. -/
def separator : UInt8 := '/'.toUInt8

/-- The names of a path. -/
def names (path : Bytes) : List Bytes := path.splitOn separator

/-- The last name of a path. -/
def lastName (path : Bytes) : Bytes := (names path).getLastD []

/-- The name of the directory that it stands in. -/
def isHere (name : Bytes) : Bool := name = [] || name = Bytes.ofText "."

/-- The name of the directory above. -/
def isAbove (name : Bytes) : Bool := name = Bytes.ofText ".."

/-- What is found from a place below the directories `above`, the nearest first. Every name but the
last is taken in a directory, and so is a last one that is the directory itself. -/
def walk (above : List FileTree) : (path : List Bytes) → FileTree → Option FileTree
  | [], t => some t
  | _ :: _, file _ => none
  | n :: p, directory es =>
    if isHere n then walk above p (directory es)
    else if isAbove n then
      match above with
      | [] => none
      | t :: above => walk above p t
    else (es.lookup n).bind (walk (directory es :: above) p)

/-- What is found at a path of the tree. A path that starts with `/` leads out of the tree, and so
does one that goes above it. -/
def get? (path : Bytes) (t : FileTree) : Option FileTree :=
  if path.head? = some separator then none else walk [] (names path) t

/-- The tree with `t` put at the names of a path without points, and the directories above it made.
A directory that is there already keeps its entries. -/
def put (t : FileTree) : (path : List Bytes) → FileTree → FileTree
  | [], old =>
    match t, old with
    | directory [], directory es => directory es
    | t, _ => t
  | n :: p, old =>
    let es := match old with
      | directory es => es
      | file _ => []
    directory ((n, put t p ((es.lookup n).getD empty)) :: es.filter (·.1 ≠ n))

/-- Makes the directories of a path one after the other, and gives the names that lead to the last
one without points. -/
def makeDirectories : (path here : List Bytes) → FileTree → List Bytes × FileTree
  | [], here, root => (here, root)
  | n :: p, here, root =>
    if isHere n then makeDirectories p here root
    else if isAbove n then makeDirectories p here.dropLast root
    else makeDirectories p (here ++ [n]) (put empty (here ++ [n]) root)

/-- The tree with a directory at a path. -/
def addDirectory (path : Bytes) (root : FileTree) : FileTree :=
  (makeDirectories (names path) [] root).2

/-- The tree with a file at a path, and the directories above it made. -/
def addFile (bytes path : Bytes) (root : FileTree) : FileTree :=
  let (here, root) := makeDirectories (names path).dropLast [] root
  put (file bytes) (here ++ [lastName path]) root

/-! ## Loading -/

/-- The name has the extension `ron`, with at least one byte before it. -/
def hasExtension (name : Bytes) : Bool :=
  (Bytes.ofText ".ron").isSuffixOf name && name ≠ Bytes.ofText ".ron"

/-- The text of a name. A name that encodes none counts as the empty text. -/
def nameText (name : Bytes) : String := (Bytes.text? name).getD ""

theorem nameText_ofText (text : String) : nameText (Bytes.ofText text) = text := by
  rw [nameText, Bytes.text?_ofText, Option.getD_some]

-- no text has the first of these bytes
example : nameText (0xFF :: Bytes.ofText "formula.ron") = "" := by decide +kernel

/-- Loads the bytes of a file with a name. -/
def loadBytes (name bytes : Bytes) (d : Definitions) : Loaded :=
  match Bytes.text? bytes with
  | some text => d.load (Definitions.kindOf (nameText name) text) text
  | none => d.refuse .unreadable

/-- Loads a file with a name; a directory cannot be read as a file. -/
def loadFile (name : Bytes) (t : FileTree) (d : Definitions) : Loaded :=
  match t with
  | file bytes => loadBytes name bytes d
  | directory _ => d.refuse .unreadable

/-- Runs loads in order up to the first that is refused. -/
def runAll : List (Definitions → Loaded) → Definitions → Loaded
  | [], d => d.accept
  | f :: fs, d =>
    match f d with
    | ⟨d', none⟩ => runAll fs d'
    | refused => refused

/-- Things in the order of their names. -/
def byName {α : Type} (xs : List (Bytes × α)) : List (Bytes × α) :=
  xs.mergeSort fun a b => a.1 ≤ b.1

mutual

/-- Loads a directory; a file cannot be read as one. -/
def loadDirectory : FileTree → Definitions → Loaded
  | file _ => fun d => d.refuse .unreadable
  | directory es => runAll ((byName (entryLoads es)).map Prod.snd)

/-- The load of every entry, with its name. -/
def entryLoads : List (Bytes × FileTree) → List (Bytes × (Definitions → Loaded))
  | [] => []
  | (n, t) :: es =>
    (n, if hasExtension n then loadFile n t
      else match t with
        | file _ => Definitions.accept
        | directory fs => loadDirectory (directory fs)) :: entryLoads es

end

/-- Loads the file at a path. -/
def loadFileAt (t : FileTree) (path : Bytes) (d : Definitions) : Loaded :=
  match get? path t with
  | some f => loadFile (lastName path) f d
  | none => d.refuse .unreadable

/-- Loads the directory at a path. -/
def loadDirectoryAt (t : FileTree) (path : Bytes) (d : Definitions) : Loaded :=
  match get? path t with
  | some f => loadDirectory f d
  | none => d.refuse .unreadable

end FileTree

end ItemBudget
