/-!
# Reading from the front of a text

A reader of a part of a text gives back what it read and what follows, with a proof that it took at
least one character. That is what makes readers that call each other end.
-/

namespace ItemBudget.Text

/-- A value read from the front of a text, and what follows it. -/
structure Taken (α : Type) (cs : List Char) where
  value : α
  rest : List Char
  shorter : rest.length < cs.length

/-- What follows a part of a text that can be empty. -/
abbrev Rest (cs : List Char) := { r : List Char // r.length ≤ cs.length }

/-- What follows nothing. -/
def Rest.all (cs : List Char) : Rest cs := ⟨cs, Nat.le_refl _⟩

namespace Taken

variable {α β : Type} {cs ds : List Char}

/-- The same reading with another value. -/
def map (f : α → β) (t : Taken α cs) : Taken β cs := ⟨f t.value, t.rest, t.shorter⟩

/-- The same reading seen from a text that is no shorter. -/
def widen (t : Taken α cs) (h : cs.length ≤ ds.length) : Taken α ds :=
  ⟨t.value, t.rest, Nat.lt_of_lt_of_le t.shorter h⟩

/-- A reading of what another one left, seen from the text of the first. -/
def andThen (t : Taken α cs) (u : Taken β t.rest) : Taken β cs :=
  ⟨u.value, u.rest, Nat.lt_trans u.shorter t.shorter⟩

/-- The same reading with one more character before the text. -/
def after {c : Char} (t : Taken α cs) : Taken α (c :: cs) :=
  ⟨t.value, t.rest, Nat.lt_succ_of_lt t.shorter⟩

/-- What follows the part that was read. -/
def left (t : Taken α cs) : Rest cs := ⟨t.rest, Nat.le_of_lt t.shorter⟩

end Taken

/-- What follows a part at the front of a text, or the text when there is no such part. -/
def restAfter {α : Type} {cs : List Char} (t : Option (Taken α cs)) : Rest cs :=
  match t with
  | some t => t.left
  | none => .all cs

theorem length_lt_cons (c : Char) (cs : List Char) : cs.length < (c :: cs).length :=
  Nat.lt_succ_self _

/-- What is left after the characters of a class. -/
abbrev skip (p : Char → Bool) (cs : List Char) : List Char := cs.dropWhile p

theorem length_skip_le (p : Char → Bool) (cs : List Char) : (skip p cs).length ≤ cs.length :=
  (List.dropWhile_sublist p).length_le

theorem length_skip_lt {p : Char → Bool} {c : Char} {cs : List Char} (h : p c = true) :
    (skip p (c :: cs)).length < (c :: cs).length := by
  simp only [skip, List.dropWhile_cons, h, ite_true, List.length_cons]
  exact Nat.lt_succ_of_le (length_skip_le p cs)

/-- The text after a word that stands at its front. -/
def afterWord? : (word cs : List Char) → Option (List Char)
  | [], cs => some cs
  | _ :: _, [] => none
  | w :: ws, c :: cs => if w = c then afterWord? ws cs else none

theorem length_afterWord? {word cs rest : List Char} (h : afterWord? word cs = some rest) :
    rest.length + word.length = cs.length := by
  induction word generalizing cs with
  | nil => simp only [afterWord?, Option.some.injEq] at h; simp [h]
  | cons w ws ih =>
    cases cs with
    | nil => simp [afterWord?] at h
    | cons c cs =>
      simp only [afterWord?] at h
      split at h
      · have := ih h; simp only [List.length_cons]; omega
      · contradiction

/-- A hexadecimal digit's value. -/
def hexValue? (c : Char) : Option Nat :=
  if c.isDigit then some (c.toNat - '0'.toNat)
  else if 'a' ≤ c ∧ c ≤ 'f' then some (c.toNat - 'a'.toNat + 10)
  else if 'A' ≤ c ∧ c ≤ 'F' then some (c.toNat - 'A'.toNat + 10)
  else none

/-- The number that hexadecimal digits write. -/
def ofHex? (ds : List Char) : Option Nat :=
  ds.foldlM (fun n c => (hexValue? c).map (16 * n + ·)) 0

end ItemBudget.Text
