import ItemBudget.Decimal.Reader

/-!
# RON texts as trees

A node holds what a RON text writes, before a type gives it a meaning. Parentheses hold named
fields or values in order, after an optional name. A run of number characters is kept as it stands,
since the same run can mean a whole number or a double. What bytes and ranges hold is not kept, since
no type asks for it.
-/

namespace ItemBudget.Ron

/-- A RON text, read. -/
inductive Node where
  /-- An identifier; a raw one was written with `r#`. -/
  | word (raw : Bool) (name : String)
  /-- A run of number characters. -/
  | number (run : List Char)
  /-- Two points between numbers, of which either can be left out. -/
  | range
  | text (value : String)
  | char (value : Char)
  /-- A byte or a string of bytes. -/
  | bytes
  | list (elements : List Node)
  | map (entries : List (Node × Node))
  /-- The value that `Some` marks as being there; a bare one is not in parentheses. -/
  | present (bare : Bool) (value : Node)
  /-- Named fields in parentheses. -/
  | record (name : Option String) (fields : List (String × Node))
  /-- Values in parentheses. -/
  | tuple (name : Option String) (elements : List Node)
  /-- Named fields in the parentheses of `Some`. -/
  | fields (fields : List (String × Node))
  /-- Values in the parentheses of `Some`. -/
  | values (elements : List Node)

/-- The node is a group in parentheses of its own. -/
def Node.isGroup : Node → Bool
  | .record .. | .tuple .. => true
  | _ => false

/-- The most levels in a text. -/
def maxLevels : Nat := 128

mutual

/-- The levels of a node: a container is one level, an element one more, and the mark `Some` one.
Empty parentheses without a name are no container. -/
def Node.levels : Node → Nat
  | .list es | .values es => levelsOfElements es + 1
  | .map es => levelsOfEntries es + 1
  | .present _ n => n.levels + 1
  | .record _ fs | .fields fs => levelsOfFields fs + 1
  | .tuple name es => if name.isNone && es.isEmpty then 0 else levelsOfElements es + 1
  | _ => 0

/-- The levels that elements add to their container. -/
def levelsOfElements : List Node → Nat
  | [] => 0
  | e :: es => max (e.levels + 1) (levelsOfElements es)

/-- The levels that entries add to their map. -/
def levelsOfEntries : List (Node × Node) → Nat
  | [] => 0
  | (k, v) :: es => max (max (k.levels + 1) (v.levels + 1)) (levelsOfEntries es)

/-- The levels that fields add to their record. -/
def levelsOfFields : List (String × Node) → Nat
  | [] => 0
  | (_, v) :: fs => max (v.levels + 1) (levelsOfFields fs)

end

/-- The ways of writing that a text turns on for itself. -/
structure Extensions where
  /-- A value that may be missing can be written without `Some`, or after it without
  parentheses. -/
  implicitSome : Bool
  /-- Named fields must follow the name of their record. -/
  explicitNames : Bool
  /-- `Some` holds the fields of a record in its own parentheses. -/
  sharedSome : Bool

/-- A whole RON text, or a part of it: a node under the text's extensions. -/
structure Part where
  extensions : Extensions
  node : Node

end ItemBudget.Ron
