/-!
# Documents

A document is a tree of texts, numbers, lists and records in some format. `Document` is the view
that every format gives of its nodes, and all that is read from documents is read through it. Each
part of the view is none when the node is not of that kind.
-/

namespace ItemBudget

/-- The fields found in a record: those with a known name, each once. -/
structure Fields (ν : Type) where
  entries : List (String × ν)
  /-- The fields were given in order and not by name, so that only the last ones can be left out. -/
  ordered : Bool

/-- The view of a node of a document. -/
class Document (ν : Type) where
  text? : ν → Option String
  /-- A number, or a word for an infinity or NaN where the format has one. -/
  number? : ν → Option Float
  flag? : ν → Option Bool
  /-- A natural number of a width in bits. -/
  natural? : (bits : Nat) → ν → Option Nat
  /-- A value that may be missing: the node that is there, or none. -/
  optional? : ν → Option (Option ν)
  list? : ν → Option (List ν)
  /-- Keys and values, in order, with repetitions. -/
  table? : ν → Option (List (String × ν))
  /-- The name of one of several alternatives. -/
  choice? : ν → Option String
  /-- The fields of a record with the given name and field names. -/
  record? : (name : String) → (fields : List String) → ν → Option (Fields ν)

/-- A value that may be missing, read when it is there. -/
def Document.optionalOf? {ν α : Type} [Document ν] (read : ν → Option α) (n : ν) :
    Option (Option α) :=
  match optional? n with
  | none => none
  | some none => some none
  | some (some n) => (read n).map some

namespace Fields

variable {ν α : Type}

/-- The value of a field, if it is there. -/
def get? (f : Fields ν) (key : String) : Option ν := f.entries.lookup key

/-- A field that must be there. -/
def required (f : Fields ν) (key : String) (read : ν → Option α) : Option α :=
  (f.get? key).bind read

/-- A field with a value for when it is left out. -/
def orElse (f : Fields ν) (key : String) (default : α) (read : ν → Option α) : Option α :=
  match f.get? key with
  | some n => read n
  | none => some default

/-- A field that holds a value that may be missing, and that can be left out where fields have
names. -/
def optional [Document ν] (f : Fields ν) (key : String) (read : ν → Option α) :
    Option (Option α) :=
  match f.get? key with
  | some n => Document.optionalOf? read n
  | none => if f.ordered then none else some none

/-- The known ones among named fields; none when one is given twice. -/
def ofNamed? (known : List String) (entries : List (String × ν)) : Option (Fields ν) :=
  let entries := entries.filter fun e => e.1 ∈ known
  if (entries.map Prod.fst).Nodup then some ⟨entries, false⟩ else none

/-- The fields given in order; none when there are more than names. -/
def ofOrdered? (known : List String) (values : List ν) : Option (Fields ν) :=
  if values.length ≤ known.length then some ⟨known.zip values, true⟩ else none

end Fields

namespace Document

variable {ν α : Type} [Document ν]

/-- A list, each element read. -/
def listOf? (read : ν → Option α) (n : ν) : Option (List α) := do
  (← list? n).mapM read

/-- Keys and values in order with repetitions, each value read. -/
def entriesOf? (read : ν → Option α) (n : ν) : Option (List (String × α)) := do
  (← table? n).mapM fun e => (read e.2).map (Prod.mk e.1)

/-- One of several alternatives by its name. -/
def oneOf? (alternatives : List (String × α)) (n : ν) : Option α := do
  alternatives.lookup (← choice? n)

end Document

end ItemBudget
