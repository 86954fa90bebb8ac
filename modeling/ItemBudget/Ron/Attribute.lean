import ItemBudget.Ron.Lexeme
import ItemBudget.Ron.Node

/-!
# RON attributes

An attribute stands in `#![` and `]` before the value of a text. `enable(…)` turns on extensions by
their names; `type = "…"` and `schema = "…"` say what the text is about and change nothing.
-/

namespace ItemBudget.Ron

/-- The extensions by name, each as a change. -/
def extensionNames : List (String × (Extensions → Extensions)) :=
  [("unwrap_newtypes", id),
    ("unwrap_variant_newtypes", fun e => { e with sharedSome := true }),
    ("implicit_some", fun e => { e with implicitSome := true }),
    ("explicit_struct_names", fun e => { e with explicitNames := true })]

/-- The names of extensions in their parentheses, through the closing one; `fuel` is at least the
number of characters. -/
def readExtensionNames? (fuel : Nat) (e : Extensions) (cs : List Char) :
    Option (Extensions × List Char) :=
  match fuel with
  | 0 => none
  | fuel + 1 => do
    let w ← readWord? cs
    let change ← extensionNames.lookup w.value.2
    let g ← skipGap? w.rest
    match g.1 with
    | ')' :: r => return (change e, r)
    | ',' :: r =>
      let g ← skipGap? r
      match g.1 with
      | ')' :: r => return (change e, r)
      | r => readExtensionNames? fuel (change e) r
    | _ => none

/-- What stands in the brackets of an attribute: extensions to turn on, or the type or the schema of
the text, which change nothing. -/
def readAttribute? (e : Extensions) (cs : List Char) : Option (Extensions × List Char) :=
  match afterWord? "enable".toList cs with
  | some r => do
    let g ← skipGap? (← afterWord? ['('] r)
    readExtensionNames? g.1.length e g.1
  | none => do
    let r ← afterWord? "type".toList cs <|> afterWord? "schema".toList cs
    let g ← skipGap? (← afterWord? ['='] r)
    return (e, (← readString? g.1).rest)

/-- The attributes at the front of a text, and what follows them and the blanks after them; `fuel` is
more than the number of characters. -/
def readAttributes? (fuel : Nat) (e : Extensions) (cs : List Char) :
    Option (Extensions × List Char) :=
  match fuel with
  | 0 => none
  | fuel + 1 => do
    let g ← skipGap? cs
    match g.1 with
    | '#' :: r =>
      let r ← afterWord? ['!'] r
      let r ← afterWord? ['['] r
      let (e, r) ← readAttribute? e r
      readAttributes? fuel e (← afterWord? [']'] r)
    | r => return (e, r)

end ItemBudget.Ron
