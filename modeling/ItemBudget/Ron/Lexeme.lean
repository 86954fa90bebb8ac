import ItemBudget.Ron.Node
import ItemBudget.Text.Class
import ItemBudget.Text.Taken

/-!
# The smallest parts of RON texts

Blanks and comments, identifiers, and the literals of strings, characters and bytes. A comment runs
from `//` to the end of its line, or from `/*` to the matching `*/`, and those nest. A raw string
holds no escapes and ends at a quote with as many `#` as it began with.
-/

namespace ItemBudget.Ron

open Text (Rest Taken skip length_skip_le length_skip_lt)

/-! ## Blanks and comments -/

/-- The characters with the property Pattern_White_Space. -/
def isBlank (c : Char) : Bool :=
  (0x09 ≤ c.toNat && c.toNat ≤ 0x0D) || c = ' ' || c.toNat = 0x85 || c.toNat = 0x200E
    || c.toNat = 0x200F || c.toNat = 0x2028 || c.toNat = 0x2029

/-- What follows the end of a comment that has `depth` comments open inside it. -/
def afterComment? (depth : Nat) : (cs : List Char) → Option (Rest cs)
  | [] => none
  | '*' :: '/' :: r =>
    match depth with
    | 0 => some ⟨r, by simp only [List.length_cons]; omega⟩
    | depth + 1 => (afterComment? depth r).map fun s => ⟨s.1, by
        have := s.2; simp only [List.length_cons]; omega⟩
  | '/' :: '*' :: r => (afterComment? (depth + 1) r).map fun s => ⟨s.1, by
      have := s.2; simp only [List.length_cons]; omega⟩
  | _ :: r => (afterComment? depth r).map fun s => ⟨s.1, by
      have := s.2; simp only [List.length_cons]; omega⟩

/-- What follows the blanks and comments at the front of a text. -/
def skipGap? (cs : List Char) : Option (Rest cs) :=
  match cs with
  | [] => some ⟨[], Nat.le_refl _⟩
  | '/' :: '/' :: r =>
    (skipGap? (skip (· ≠ '\n') r)).map fun s => ⟨s.1, by
      have := s.2; have := length_skip_le (· ≠ '\n') r; simp only [List.length_cons]; omega⟩
  | '/' :: '*' :: r =>
    match afterComment? 0 r with
    | none => none
    | some t => (skipGap? t.1).map fun s => ⟨s.1, by
        have := s.2; have := t.2; simp only [List.length_cons]; omega⟩
  | '/' :: _ => none
  | c :: r =>
    if isBlank c then (skipGap? r).map fun s => ⟨s.1, by
      have := s.2; simp only [List.length_cons]; omega⟩
    else some ⟨c :: r, Nat.le_refl _⟩
termination_by cs.length
decreasing_by
  · have := length_skip_le (· ≠ '\n') r
    simp only [List.length_cons]; omega
  · have := t.2
    simp only [List.length_cons]; omega
  · simp

/-- A character, with blanks and comments before it passed over. -/
def readMark? (c : Char) (cs : List Char) : Option (Taken Unit cs) :=
  match skipGap? cs with
  | some ⟨d :: r, h⟩ => if d = c then some ⟨(), r, h⟩ else none
  | _ => none

/-- What follows a word, with blanks and comments before it passed over. -/
def afterWord? (word cs : List Char) : Option (List Char) := do
  Text.afterWord? word (← skipGap? cs).1

/-- The word `c :: word` at the front of a text, when no identifier goes on from it. -/
def readKeyword? (c : Char) (word cs : List Char) : Option (Taken Unit cs) :=
  match h : Text.afterWord? (c :: word) cs with
  | none => none
  | some r =>
    if r.head?.any Text.continuesIdentifier then none
    else some ⟨(), r, by
      have := Text.length_afterWord? h; simp only [List.length_cons] at this; omega⟩

/-! ## Identifiers -/

/-- A character that can stand in a raw identifier. -/
def continuesRaw (c : Char) : Bool :=
  Text.continuesIdentifier c || c = '.' || c = '+' || c = '-'

/-- A string or byte literal starts here, and no identifier. -/
def startsLiteral : List Char → Bool
  | 'r' :: '"' :: _ | 'r' :: '#' :: '"' :: _ | 'r' :: '#' :: '#' :: _ | 'b' :: '"' :: _
  | 'b' :: '\'' :: _ | 'b' :: 'r' :: '"' :: _ | 'b' :: 'r' :: '#' :: _ => true
  | _ => false

/-- The identifier at the front of a text, and whether it is raw. A point or a sign right after a
plain identifier is refused. -/
def readWord? (cs : List Char) : Option (Taken (Bool × String) cs) :=
  if startsLiteral cs then none
  else match cs with
    | 'r' :: '#' :: c :: r =>
      if h : continuesRaw c = true then
        some ⟨(true, String.ofList ((c :: r).takeWhile continuesRaw)), skip continuesRaw (c :: r), by
          have : (skip continuesRaw (c :: r)).length < (c :: r).length := length_skip_lt h
          simp only [List.length_cons] at this ⊢; omega⟩
      else none
    | c :: r =>
      if Text.startsIdentifier c then
        if (skip Text.continuesIdentifier r).head?.any continuesRaw then none
        else some ⟨(false, String.ofList (c :: r.takeWhile Text.continuesIdentifier)),
          skip Text.continuesIdentifier r, by
          have := length_skip_le Text.continuesIdentifier r; simp only [List.length_cons]; omega⟩
      else none
    | [] => none

/-! ## Escapes -/

/-- The character that a one-letter escape writes. -/
def escaped? : Char → Option Char
  | '\'' => some '\''
  | '"' => some '"'
  | '\\' => some '\\'
  | 'n' => some '\n'
  | 'r' => some '\r'
  | 't' => some '\t'
  | '0' => some '\x00'
  | _ => none

/-- The character whose UTF-8 form the bytes are. -/
def ofUtf8? (bytes : List Nat) : Option Char :=
  match (String.fromUTF8? ⟨(bytes.map UInt8.ofNat).toArray⟩).map String.toList with
  | some [c] => some c
  | _ => none

/-- The character of a run of byte escapes, of which `bytes` were read and `more` may follow. -/
def readByteEscapes? (bytes : List Nat) : (more : Nat) → (cs : List Char) →
    Option (Char × Rest cs)
  | 0, cs => (ofUtf8? bytes).map (·, ⟨cs, Nat.le_refl _⟩)
  | more + 1, cs =>
    match ofUtf8? bytes with
    | some c => some (c, ⟨cs, Nat.le_refl _⟩)
    | none =>
      match cs with
      | '\\' :: 'x' :: a :: b :: r =>
        match Text.ofHex? [a, b] with
        | some n => (readByteEscapes? (bytes ++ [n]) more r).map fun p => (p.1, ⟨p.2.1, by
            have := p.2.2; simp only [List.length_cons]; omega⟩)
        | none => none
      | _ => none

/-- A character by its code point. -/
def ofCodePoint? (n : Nat) : Option Char :=
  if n.isValidChar then some (Char.ofNat n) else none

/-- At most `most` characters, through the brace that closes them. -/
def readBraced? : (most : Nat) → (cs : List Char) → Option (Taken (List Char) cs)
  | _, '}' :: r => some ⟨[], r, Nat.lt_succ_self _⟩
  | most + 1, c :: r => (readBraced? most r).map fun t => ⟨c :: t.value, t.rest, by
      have := t.shorter; simp only [List.length_cons]; omega⟩
  | _, _ => none

/-- Where an escape stands, which decides what it may write. -/
inductive Place where
  /-- In a string, where a run of byte escapes writes one character. -/
  | text
  /-- In a character, where a byte escape writes an ASCII character. -/
  | char
  /-- In a string of bytes. -/
  | bytes
  /-- In a byte, which no code point can write. -/
  | byte
deriving DecidableEq

/-- What follows the end of a line and the blanks after it. -/
def afterLine? (cs : List Char) : Option (Taken Unit cs) :=
  let p := fun c : Char => c = ' ' || c = '\t' || c = '\n' || c = '\r'
  match cs with
  | '\n' :: r => some ⟨(), skip p r, by
      have := length_skip_le p r; simp only [List.length_cons]; omega⟩
  | '\r' :: '\n' :: r => some ⟨(), skip p r, by
      have := length_skip_le p r; simp only [List.length_cons]; omega⟩
  | _ => none

/-- What a byte escape writes, read after its mark `x`. -/
def readByteEscape? (place : Place) (cs : List Char) : Option (Taken (List Char) cs) :=
  match cs with
  | a :: b :: r =>
    match Text.ofHex? [a, b] with
    | none => none
    | some n =>
      if place = .text then
        (readByteEscapes? [n] 3 r).map fun p => ⟨[p.1], p.2.1, by
          have := p.2.2; simp only [List.length_cons]; omega⟩
      else if place = .char && 0x80 ≤ n then none
      else some ⟨[Char.ofNat n], r, by simp only [List.length_cons]; omega⟩
  | _ => none

/-- The character whose code point is between the braces at the front of a text. -/
def readCodePoint? (cs : List Char) : Option (Taken (List Char) cs) :=
  match cs with
  | '\x7b' :: r =>
    match readBraced? 6 r with
    | none => none
    | some t =>
      if t.value.isEmpty then none
      else ((Text.ofHex? t.value).bind ofCodePoint?).map fun c => ⟨[c], t.rest, by
        have := t.shorter; simp only [List.length_cons]; omega⟩
  | _ => none

/-- What an escape writes, read after its backslash: a character, or nothing for the end of a line
with the blanks after it. -/
def readEscape? (place : Place) (cs : List Char) : Option (Taken (List Char) cs) :=
  match afterLine? cs with
  | some t => some (t.map fun _ => [])
  | none =>
    match cs with
    | 'x' :: r => (readByteEscape? place r).map Taken.after
    | 'u' :: r => if place = .byte then none else (readCodePoint? r).map Taken.after
    | c :: r => (escaped? c).map fun d => ⟨[d], r, Text.length_lt_cons c r⟩
    | [] => none

/-! ## Strings and characters -/

/-- The characters of a string after its opening quote, through its closing one. -/
def readText? (place : Place) (cs : List Char) : Option (Taken (List Char) cs) :=
  match cs with
  | [] => none
  | '"' :: r => some ⟨[], r, Nat.lt_succ_self _⟩
  | '\\' :: r =>
    match readEscape? place r with
    | none => none
    | some e => (readText? place e.rest).map fun t => ⟨e.value ++ t.value, t.rest, by
        have := e.shorter; have := t.shorter; simp only [List.length_cons]; omega⟩
  | c :: r => (readText? place r).map fun t => ⟨c :: t.value, t.rest, by
      have := t.shorter; simp only [List.length_cons]; omega⟩
termination_by cs.length
decreasing_by
  · have := e.shorter; simp only [List.length_cons]; omega
  · simp

/-- The characters of a raw string after its opening quote, through its closing quote and its
`hashes`. -/
def readRawText? (hashes : List Char) : (cs : List Char) → Option (Taken (List Char) cs)
  | [] => none
  | c :: r =>
    match (if c = '"' then Text.afterWord? hashes r else none), h : Text.afterWord? hashes r with
    | some _, some rest => some ⟨[], rest, by
        have := Text.length_afterWord? h; simp only [List.length_cons]; omega⟩
    | _, _ => (readRawText? hashes r).map fun t => ⟨c :: t.value, t.rest, by
        have := t.shorter; simp only [List.length_cons]; omega⟩

/-- A raw string after its mark `r`. -/
def readRaw? (cs : List Char) : Option (Taken (List Char) cs) :=
  match h : skip (· = '#') cs with
  | '"' :: r => (readRawText? (cs.takeWhile (· = '#')) r).map fun t => t.widen (by
      have := length_skip_le (· = '#') cs; simp only [h, List.length_cons] at this; omega)
  | _ => none

/-- A character or a byte after its opening quote. A byte is an ASCII character or an escape. -/
def readChar? (place : Place) (cs : List Char) : Option (Taken Char cs) :=
  match cs with
  | '\\' :: r =>
    match readEscape? place r with
    | some ⟨[c], '\'' :: rest, h⟩ => some ⟨c, rest, by
        simp only [List.length_cons] at h ⊢; omega⟩
    | _ => none
  | c :: '\'' :: r =>
    if place = .byte && 0x80 ≤ c.toNat then none
    else some ⟨c, r, by simp only [List.length_cons]; omega⟩
  | _ => none

/-- A character in quotes. -/
def readQuoted? (cs : List Char) : Option (Taken Char cs) :=
  match cs with
  | '\'' :: r => (readChar? .char r).map Taken.after
  | _ => none

/-- A string, raw or not. -/
def readString? (cs : List Char) : Option (Taken String cs) :=
  match cs with
  | '"' :: r => (readText? .text r).map fun t => (t.map String.ofList).after
  | 'r' :: r => (readRaw? r).map fun t => (t.map String.ofList).after
  | _ => none

/-- A byte. -/
def readByte? (cs : List Char) : Option (Taken Char cs) :=
  match cs with
  | 'b' :: '\'' :: r => (readChar? .byte r).map fun t => t.after.after
  | _ => none

/-- A string of bytes, raw or not. -/
def readBytes? (cs : List Char) : Option (Taken (List Char) cs) :=
  match cs with
  | 'b' :: '"' :: r => (readText? .bytes r).map fun t => t.after.after
  | 'b' :: 'r' :: r => (readRaw? r).map fun t => t.after.after
  | _ => none

end ItemBudget.Ron
