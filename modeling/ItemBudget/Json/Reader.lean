import ItemBudget.Json.Node
import ItemBudget.Text.Taken

/-!
# Reading JSON texts

The grammar is the standard's: four blank characters, no comments, no comma before a closing
bracket, numbers without superfluous zeros, control characters in strings only as escapes. `read?`
takes a whole text, with blanks around the one value.
-/

namespace ItemBudget.Json

open Text (Taken skip length_skip_le length_skip_lt)

/-- The characters that separate tokens. -/
def isBlank (c : Char) : Bool := c = ' ' || c = '\t' || c = '\n' || c = '\r'

/-! ## Strings -/

/-- A character of a string literal, or the code unit that a `\u` escape writes. -/
inductive Piece where
  | char (c : Char)
  | unit (code : Nat)

/-- A code unit that opens a surrogate pair. -/
def isHigh (u : Nat) : Bool := 0xD800 ≤ u && u < 0xDC00

/-- A code unit that closes a surrogate pair. -/
def isLow (u : Nat) : Bool := 0xDC00 ≤ u && u < 0xE000

/-- The characters that pieces write; none when a surrogate stands alone. -/
def chars? : List Piece → Option (List Char)
  | [] => some []
  | .char c :: r => (chars? r).map (c :: ·)
  | .unit u :: .unit v :: r =>
    if isHigh u then
      if isLow v then
        (chars? r).map (Char.ofNat (0x10000 + (u - 0xD800) * 0x400 + (v - 0xDC00)) :: ·)
      else none
    else if isLow u then none
    else (chars? (.unit v :: r)).map (Char.ofNat u :: ·)
  | .unit u :: r =>
    if isHigh u || isLow u then none else (chars? r).map (Char.ofNat u :: ·)

/-- The character that a one-letter escape writes. -/
def escaped? : Char → Option Char
  | '"' => some '"'
  | '\\' => some '\\'
  | '/' => some '/'
  | 'b' => some '\x08'
  | 'f' => some '\x0c'
  | 'n' => some '\n'
  | 'r' => some '\r'
  | 't' => some '\t'
  | _ => none

/-- The pieces of a string literal after its opening quote, through its closing one. -/
def readPieces? : (cs : List Char) → Option (Taken (List Piece) cs)
  | [] => none
  | '"' :: r => some ⟨[], r, Text.length_lt_cons '"' r⟩
  | '\\' :: 'u' :: a :: b :: c :: d :: r =>
    match Text.ofHex? [a, b, c, d], readPieces? r with
    | some u, some t => some ⟨.unit u :: t.value, t.rest, by
        have := t.shorter; simp only [List.length_cons]; omega⟩
    | _, _ => none
  | '\\' :: e :: r =>
    match escaped? e, readPieces? r with
    | some c, some t => some ⟨.char c :: t.value, t.rest, by
        have := t.shorter; simp only [List.length_cons]; omega⟩
    | _, _ => none
  | c :: r =>
    if c.toNat < 0x20 then none
    else match readPieces? r with
      | some t => some ⟨.char c :: t.value, t.rest, by
          have := t.shorter; simp only [List.length_cons]; omega⟩
      | none => none

/-- A string literal after its opening quote. -/
def readLiteral? (cs : List Char) : Option (Taken Literal cs) :=
  (readPieces? cs).map (·.map fun ps => (chars? ps).map String.ofList)

/-! ## Numbers -/

/-- The exponent at the front of a text, with what follows; a text that does not start with the mark
`e` has none. -/
def readExponent? : List Char → Option (Option Int × List Char)
  | c :: r =>
    if c = 'e' || c = 'E' then
      let (negative, r) : Bool × List Char := match r with
        | '+' :: r => (false, r)
        | '-' :: r => (true, r)
        | r => (false, r)
      let ds := r.takeWhile Char.isDigit
      let value : Int := Decimal.ofDigits ds
      if ds.isEmpty then none
      else some (some (if negative then -value else value), r.dropWhile Char.isDigit)
    else some (none, c :: r)
  | [] => some (none, [])

/-- The digits after a point at the front of a text, with what follows. -/
def readFraction? : List Char → Option (List Char × List Char)
  | '.' :: r =>
    let ds := r.takeWhile Char.isDigit
    if ds.isEmpty then none else some (ds, r.dropWhile Char.isDigit)
  | r => some ([], r)

/-- The numeral at the front of a text, with what follows. A whole part of more than one digit does
not start with zero. -/
def readNumeral? (cs : List Char) : Option (Decimal.Numeral × List Char) := do
  let (negative, cs) : Bool × List Char := match cs with
    | '-' :: r => (true, r)
    | r => (false, r)
  let whole := cs.takeWhile Char.isDigit
  if whole.isEmpty || (whole.head? = some '0' && 1 < whole.length) then none
  else
    let (fraction, r) ← readFraction? (cs.dropWhile Char.isDigit)
    let (exponent, r) ← readExponent? r
    return (⟨negative, whole, fraction, exponent⟩, r)

/-! ## Values -/

/-- The value that a word stands for. -/
def ofWord? (word : List Char) : Option Node :=
  if word = ['n', 'u', 'l', 'l'] then some .null
  else if word = ['t', 'r', 'u', 'e'] then some (.flag true)
  else if word = ['f', 'a', 'l', 's', 'e'] then some (.flag false)
  else none

mutual

/-- The value at the front of a text that starts with no blank. -/
def readValue? (cs : List Char) : Option (Taken Node cs) :=
  match cs with
  | [] => none
  | '"' :: r => (readLiteral? r).map fun t => (t.map Node.text).widen (by simp)
  | '[' :: r =>
    match h : skip isBlank r with
    | ']' :: r' => some ⟨.array [], r', by
        have := length_skip_le isBlank r
        simp only [h, List.length_cons] at this ⊢; omega⟩
    | r' => (readElements? r').map fun t => (t.map Node.array).widen (by
        have := length_skip_le isBlank r
        simp only [h, List.length_cons] at this ⊢; omega)
  | '{' :: r =>
    match h : skip isBlank r with
    | '}' :: r' => some ⟨.object [], r', by
        have := length_skip_le isBlank r
        simp only [h, List.length_cons] at this ⊢; omega⟩
    | r' => (readMembers? r').map fun t => (t.map Node.object).widen (by
        have := length_skip_le isBlank r
        simp only [h, List.length_cons] at this ⊢; omega)
  | c :: r =>
    if h : c.isAlpha = true then
      (ofWord? ((c :: r).takeWhile Char.isAlpha)).map fun n =>
        ⟨n, skip Char.isAlpha (c :: r), length_skip_lt h⟩
    else
      (readNumeral? (c :: r)).bind fun n =>
        if hn : n.2.length < (c :: r).length then some ⟨.number n.1, n.2, hn⟩ else none
termination_by (cs.length, 0)
decreasing_by
  · have := length_skip_le isBlank r
    simp only [h, List.length_cons] at this ⊢
    exact Prod.Lex.left _ _ (by omega)
  · have := length_skip_le isBlank r
    simp only [h, List.length_cons] at this ⊢
    exact Prod.Lex.left _ _ (by omega)

/-- The elements of an array that is not empty, through its closing bracket. -/
def readElements? (cs : List Char) : Option (Taken (List Node) cs) :=
  match readValue? cs with
  | none => none
  | some v =>
    match h : skip isBlank v.rest with
    | ']' :: r => some ⟨[v.value], r, by
        have := v.shorter; have := length_skip_le isBlank v.rest
        simp only [h, List.length_cons] at this; omega⟩
    | ',' :: r =>
      (readElements? (skip isBlank r)).map fun t => (t.map (v.value :: ·)).widen (by
        have := v.shorter; have := length_skip_le isBlank v.rest
        have := length_skip_le isBlank r
        simp_all only [List.length_cons]; omega)
    | _ => none
termination_by (cs.length, 1)
decreasing_by
  · exact Prod.Lex.right _ (by decide)
  · have := v.shorter
    have := length_skip_le isBlank v.rest
    have := length_skip_le isBlank r
    simp_all only [List.length_cons]
    exact Prod.Lex.left _ _ (by omega)

/-- The members of an object that is not empty, through its closing bracket. -/
def readMembers? (cs : List Char) : Option (Taken (List (Literal × Node)) cs) :=
  match cs with
  | '"' :: cs' =>
    match readLiteral? cs' with
    | none => none
    | some k =>
      match hk : skip isBlank k.rest with
      | ':' :: r =>
        match readValue? (skip isBlank r) with
        | none => none
        | some v =>
          match h : skip isBlank v.rest with
          | '}' :: r' => some ⟨[(k.value, v.value)], r', by
              have := k.shorter; have := length_skip_le isBlank k.rest
              have := v.shorter; have := length_skip_le isBlank v.rest
              have := length_skip_le isBlank r
              simp_all only [List.length_cons]; omega⟩
          | ',' :: r' =>
            (readMembers? (skip isBlank r')).map fun t =>
              (t.map ((k.value, v.value) :: ·)).widen (by
                have := k.shorter; have := length_skip_le isBlank k.rest
                have := v.shorter; have := length_skip_le isBlank v.rest
                have := length_skip_le isBlank r; have := length_skip_le isBlank r'
                simp_all only [List.length_cons]; omega)
          | _ => none
      | _ => none
  | _ => none
termination_by (cs.length, 1)
decreasing_by
  · have := k.shorter
    have := length_skip_le isBlank k.rest
    have := length_skip_le isBlank r
    simp_all only [List.length_cons]
    exact Prod.Lex.left _ _ (by omega)
  · have := k.shorter
    have := length_skip_le isBlank k.rest
    have := v.shorter
    have := length_skip_le isBlank v.rest
    have := length_skip_le isBlank r
    have := length_skip_le isBlank r'
    simp_all only [List.length_cons]
    exact Prod.Lex.left _ _ (by omega)

end

/-- The value that a whole text writes. -/
def read? (source : String) : Option Node :=
  match readValue? (skip isBlank source.toList) with
  | some t => if (skip isBlank t.rest).isEmpty then some t.value else none
  | none => none

end ItemBudget.Json
