import ItemBudget.Ron.Attribute
import ItemBudget.Ron.Literal

/-!
# Reading RON texts

A text is one value with blanks and comments around it, after its attributes, which turn on
extensions. Elements of a container are separated by commas, and one may follow the last. A value
is read without a type; `Part` is the view that gives it one. The readers share one measure, a
number, so that a given text can be read by evaluation.

RON has a grammar but no standard that settles every text. Beyond the grammar these readers, with
those of literals and numbers that they use, transcribe the reader of the RON package that the
workspace builds with: its extensions and what each of them allows, its attributes, ranges and
suffixes, the depth it goes to, and the look ahead into parentheses that `Some` shares with a group.
-/

namespace ItemBudget.Ron

open Text (Rest Taken restAfter)

/-- The name of a field, with blanks and comments before it passed over. -/
def readName? (cs : List Char) : Option (Taken String cs) :=
  match skipGap? cs with
  | none => none
  | some g => (readWord? g.1).map fun t => (t.map Prod.snd).widen g.2

/-- Named fields follow: the first thing in the parentheses is an identifier with a colon after
it. -/
def opensFields (cs : List Char) : Bool :=
  match readName? cs with
  | none => false
  | some w => (readMark? ':' w.rest).isSome

/-! ## A look ahead -/

/-- The text without a blank, a comment or a literal at its front. -/
def pastLiteral? (cs : List Char) : Option (Rest cs) := do
  let g ← skipGap? cs
  let a := restAfter (readQuoted? g.1)
  let b := restAfter (readString? a.1)
  let c := restAfter (readBytes? b.1)
  return ⟨c.1, Nat.le_trans c.2 (Nat.le_trans b.2 (Nat.le_trans a.2 g.2))⟩

/-- Parentheses, `depth` of them open, come to an end or to a comma between their parts. The look
goes on behind a literal with the character after it, so that a comment right behind a literal is
not passed over as one. -/
def looksEnded (depth : Nat) (cs : List Char) : Bool :=
  match pastLiteral? cs with
  | none => false
  | some ⟨[], _⟩ => false
  | some ⟨c :: r, h⟩ =>
    have : r.length < cs.length := h
    if c = '(' || c = '[' || c = '{' then looksEnded (depth + 1) r
    else if c = ')' || c = ']' || c = '}' then depth ≤ 1 || looksEnded (depth - 1) r
    else if c = ',' && depth = 1 then (skipGap? r).isSome
    else looksEnded depth r
termination_by cs.length

/-- The parentheses that `Some` shares with a group look whole, after the opening one: this is
decided by their first identifier, or else by a look for their end. -/
def looksClosed (cs : List Char) : Bool :=
  match readName? cs with
  | some w =>
    match (skipGap? w.rest).map (·.1.head?) with
    | none => false
    | some c => c = some ':' || c = some ',' || c = some ')' || looksEnded 1 w.rest
  | none => looksEnded 1 cs

variable (e : Extensions)

mutual

/-- The value at the front of a text that starts with no blank. -/
def readValue? (cs : List Char) : Option (Taken Node cs) :=
  match readKeyword? 'S' ['o', 'm', 'e'] cs with
  | some s => (readMarked? s.rest).map fun t => s.andThen t
  | none =>
    match readLiteral? cs with
    | some t => some t
    | none =>
      match readWord? cs with
      | some w =>
        match readMark? '(' w.rest with
        | some m => (readGroup? (some w.value.2) m.rest).map fun t => w.andThen (m.andThen t)
        | none => some (w.map fun n => .word n.1 n.2)
      | none =>
        match readMark? '(' cs with
        | some m => (readGroup? none m.rest).map fun t => m.andThen t
        | none =>
          match readMark? '[' cs with
          | some m => (readElements? ']' m.rest).map fun t => m.andThen (t.map Node.list)
          | none =>
            match readMark? '{' cs with
            | some m => (readEntries? m.rest).map fun t => m.andThen (t.map Node.map)
            | none => none
termination_by 5 * cs.length
decreasing_by
  · have := s.shorter
    omega
  · have := w.shorter
    have := m.shorter
    omega
  all_goals
    have := m.shorter
    omega

/-- The value that `Some` marks, after that word. -/
def readMarked? (cs : List Char) : Option (Taken Node cs) :=
  match readMark? '(' cs with
  | some m => (readShared? m.rest).map fun t => m.andThen (t.map (Node.present false))
  | none => if e.implicitSome then (readNext? cs).map (·.map (Node.present true)) else none
termination_by 5 * cs.length + 4
decreasing_by
  · have := m.shorter
    omega
  · omega

/-- The value in the parentheses of `Some`, after the opening one. It is alone in them, unless
they are those of a group too. -/
def readShared? (cs : List Char) : Option (Taken Node cs) :=
  if e.sharedSome && !looksClosed cs then none
  else if opensFields cs then
    if e.sharedSome then (readFields? cs).map (·.map Node.fields) else none
  else
    match readElements? ')' cs with
    | none => none
    | some t =>
      match t.value with
      | [n] => some (t.map fun _ => n)
      | ns => if e.sharedSome then some (t.map fun _ => .values ns) else none
termination_by 5 * cs.length + 3
decreasing_by
  all_goals omega

/-- A group in parentheses after its opening one. -/
def readGroup? (name : Option String) (cs : List Char) : Option (Taken Node cs) :=
  if opensFields cs then (readFields? cs).map (·.map (Node.record name))
  else (readElements? ')' cs).map (·.map (Node.tuple name))
termination_by 5 * cs.length + 3
decreasing_by
  all_goals omega

/-- The value after the blanks and comments at the front of a text. -/
def readNext? (cs : List Char) : Option (Taken Node cs) :=
  match skipGap? cs with
  | none => none
  | some g => (readValue? g.1).map fun t => t.widen g.2
termination_by 5 * cs.length + 1
decreasing_by
  have := g.2
  omega

/-- The values of a container, through its closing bracket. -/
def readElements? (closing : Char) (cs : List Char) : Option (Taken (List Node) cs) :=
  match readMark? closing cs with
  | some m => some (m.map fun _ => [])
  | none =>
    match readNext? cs with
    | none => none
    | some v =>
      match readMark? ',' v.rest with
      | some m =>
        (readElements? closing m.rest).map fun t => v.andThen (m.andThen (t.map (v.value :: ·)))
      | none => (readMark? closing v.rest).map fun m => v.andThen (m.map fun _ => [v.value])
termination_by 5 * cs.length + 2
decreasing_by
  · omega
  · have := v.shorter
    have := m.shorter
    omega

/-- A colon and the value after it. -/
def readAfterColon? (cs : List Char) : Option (Taken Node cs) :=
  match readMark? ':' cs with
  | none => none
  | some m => (readNext? m.rest).map fun t => m.andThen t
termination_by 5 * cs.length + 1
decreasing_by
  have := m.shorter
  omega

/-- The entries of a map, through its closing bracket. -/
def readEntries? (cs : List Char) : Option (Taken (List (Node × Node)) cs) :=
  match readMark? '}' cs with
  | some m => some (m.map fun _ => [])
  | none =>
    match readNext? cs with
    | none => none
    | some k =>
      match readAfterColon? k.rest with
      | none => none
      | some v =>
        match readMark? ',' v.rest with
        | some m =>
          (readEntries? m.rest).map fun t =>
            k.andThen (v.andThen (m.andThen (t.map ((k.value, v.value) :: ·))))
        | none =>
          (readMark? '}' v.rest).map fun m =>
            k.andThen (v.andThen (m.map fun _ => [(k.value, v.value)]))
termination_by 5 * cs.length + 2
decreasing_by
  · omega
  · have := k.shorter
    omega
  · have := k.shorter
    have := v.shorter
    have := m.shorter
    omega

/-- Named fields, through the closing parenthesis. -/
def readFields? (cs : List Char) : Option (Taken (List (String × Node)) cs) :=
  match readMark? ')' cs with
  | some m => some (m.map fun _ => [])
  | none =>
    match readName? cs with
    | none => none
    | some k =>
      match readAfterColon? k.rest with
      | none => none
      | some v =>
        match readMark? ',' v.rest with
        | some m =>
          (readFields? m.rest).map fun t =>
            k.andThen (v.andThen (m.andThen (t.map ((k.value, v.value) :: ·))))
        | none =>
          (readMark? ')' v.rest).map fun m =>
            k.andThen (v.andThen (m.map fun _ => [(k.value, v.value)]))
termination_by 5 * cs.length + 2
decreasing_by
  · have := k.shorter
    omega
  · have := k.shorter
    have := v.shorter
    have := m.shorter
    omega

end

/-- The value that a whole text writes. -/
def read? (source : String) : Option Part := do
  let cs := source.toList
  let (extensions, r) ← readAttributes? (cs.length + 1) ⟨false, false, false⟩ cs
  let t ← readValue? extensions r
  let g ← skipGap? t.rest
  if g.1.isEmpty && t.value.levels ≤ maxLevels then some ⟨extensions, t.value⟩ else none

end ItemBudget.Ron
