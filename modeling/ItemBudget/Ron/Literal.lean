import ItemBudget.Ron.Lexeme
import ItemBudget.Ron.Number

/-!
# RON values that hold no other

Words of their own, numbers, strings, characters, bytes and ranges. A range is two points between
numbers or bytes, with no blank around them; an end that counts itself has `=` before it.
-/

namespace ItemBudget.Ron

open Text (Rest Taken restAfter)

/-! ## Numbers and ranges -/

/-- A bound of a range: a number or a byte. -/
def readBound? (cs : List Char) : Option (Taken Node cs) :=
  match readNumber? cs with
  | some t => some (t.map Node.number)
  | none => (readByte? cs).map fun t => t.map fun _ => Node.bytes

/-- What follows the end of a range, after its two points. An end that counts itself cannot be left
out. -/
def afterRange? (cs : List Char) : Option (Rest cs) :=
  match cs with
  | '=' :: r => (readBound? r).map fun t => t.after.left
  | r => some (restAfter (readBound? r))

/-- The two points of a range and its end. -/
def readPoints? (cs : List Char) : Option (Taken Unit cs) :=
  match cs with
  | '.' :: '.' :: r => (afterRange? r).map fun s => ⟨(), s.1, by
      have := s.2; simp only [List.length_cons]; omega⟩
  | _ => none

/-- A number, a byte or a range. -/
def readNumeric? (cs : List Char) : Option (Taken Node cs) :=
  match readBound? cs with
  | some t =>
    if t.rest.take 2 = ['.', '.'] then
      (readPoints? t.rest).map fun u => t.andThen (u.map fun _ => Node.range)
    else some t
  | none => (readPoints? cs).map fun u => u.map fun _ => Node.range

/-! ## Literals -/

/-- A word that is a value of its own. -/
def readConstant? (cs : List Char) : Option (Taken Node cs) :=
  let constant (c : Char) (r : List Char) : Option (Taken Node cs) :=
    (readKeyword? c r cs).map fun t => t.map fun _ => Node.word false (String.ofList (c :: r))
  constant 't' ['r', 'u', 'e'] <|> constant 'f' ['a', 'l', 's', 'e'] <|> constant 'N' ['o', 'n', 'e']

/-- A value that holds no other: a word of its own, a number, a string, a character or bytes. -/
def readLiteral? (cs : List Char) : Option (Taken Node cs) :=
  readConstant? cs
    <|> readNumeric? cs
    <|> (readString? cs).map (·.map Node.text)
    <|> (readBytes? cs).map (fun t => t.map fun _ => Node.bytes)
    <|> (readQuoted? cs).map (·.map Node.char)

end ItemBudget.Ron
