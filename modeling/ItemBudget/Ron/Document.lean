import ItemBudget.Document.View
import ItemBudget.Ron.Number
import ItemBudget.Ron.Node

/-!
# RON values as documents

A record is a group of named fields, after its own name or none; an empty group has no fields. A
value that may be missing is `None` or `Some` with the value, and an alternative is an identifier.
Where a text turns it on, the fields of a record stand in the parentheses of its `Some`.
-/

namespace ItemBudget.Ron

/-- Nodes under the extensions of the text they are in. -/
def Extensions.parts (e : Extensions) (ns : List Node) : List Part := ns.map (Part.mk e)

/-- A group may stand for a record of this name. -/
def Extensions.allowsName (e : Extensions) (found : Option String) (name : String) : Bool :=
  match found with
  | some f => f = name
  | none => !e.explicitNames

/-- The keys of a map, when all are strings. -/
def keyed? (es : List (Node × Node)) : Option (List (String × Node)) :=
  es.mapM fun e =>
    match e.1 with
    | .text k => some (k, e.2)
    | _ => none

instance : Document Part where
  text? p :=
    match p.node with
    | .text s => some s
    | _ => none
  number? p :=
    match p.node with
    | .number run => float? run
    | _ => none
  flag? p :=
    match p.node with
    | .word false "true" => some true
    | .word false "false" => some false
    | _ => none
  natural? bits p :=
    match p.node with
    | .number run => natural? bits run
    | _ => none
  optional? p :=
    match p.node with
    | .word false "None" => some none
    | .present bare n =>
      if p.extensions.sharedSome && !bare && n.isGroup then none
      else some (some ⟨p.extensions, n⟩)
    | n => if p.extensions.implicitSome then some (some ⟨p.extensions, n⟩) else none
  list? p :=
    match p.node with
    | .list es => some (p.extensions.parts es)
    | _ => none
  table? p :=
    match p.node with
    | .map es => (keyed? es).map (·.map fun e => (e.1, ⟨p.extensions, e.2⟩))
    | _ => none
  choice? p :=
    match p.node with
    | .word _ name => some name
    | _ => none
  record? name known p :=
    match p.node with
    | .record found fs =>
      if p.extensions.allowsName found name then
        Fields.ofNamed? known (fs.map fun f => (f.1, ⟨p.extensions, f.2⟩))
      else none
    | .fields fs => Fields.ofNamed? known (fs.map fun f => (f.1, ⟨p.extensions, f.2⟩))
    | .tuple found [] =>
      if p.extensions.allowsName found name then some ⟨[], false⟩ else none
    | _ => none

end ItemBudget.Ron
