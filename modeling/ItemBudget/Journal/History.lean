import ItemBudget.Journal.Record

/-!
# Histories

A history keeps records, oldest first. It numbers them from 1 and gives no number twice: neither
dropping old records nor clearing the history changes the number of the next one. A history with a
limit drops its oldest records when it holds more.
-/

namespace ItemBudget.Journal

/-- The records of changes, oldest first. -/
structure History where
  /-- The most records that are kept; without it all are. -/
  limit : Option Nat
  records : List Record
  /-- The number of the next record. A number here has no bound; it stands for a counter of 64 bits,
  and is what that counter shows as long as fewer than `2 ^ 64 - 1` changes were recorded. -/
  nextSeq : Nat
deriving DecidableEq

/-- No kept record has the number. -/
structure RecordNotFound where
  seq : Nat
deriving DecidableEq, Repr

/-- The message of a missing record. -/
def RecordNotFound.message (e : RecordNotFound) : String := s!"History record not found: {e.seq}"

/-- The end of a list, at most `limit` long. -/
def latest {α : Type} (limit : Option Nat) (xs : List α) : List α :=
  match limit with
  | some n => xs.drop (xs.length - n)
  | none => xs

theorem latest_isSuffixOf {α : Type} (limit : Option Nat) (xs : List α) :
    latest limit xs <:+ xs := by
  cases limit with
  | none => exact List.suffix_rfl
  | some n => exact List.drop_suffix _ _

/-- Cutting a list before more is added to it does not change the cut of the whole. -/
theorem latest_latest_append {α : Type} (limit : Option Nat) (xs ys : List α) :
    latest limit (latest limit xs ++ ys) = latest limit (xs ++ ys) := by
  cases limit with
  | none => rfl
  | some n =>
    have hle : xs.length - n ≤ xs.length := Nat.sub_le _ _
    simp only [latest]
    rw [← List.drop_append_of_le_length hle, List.drop_drop]
    congr 1
    simp only [List.length_drop, List.length_append]
    omega

/-- The record with a number, among records in the order of their numbers: the half that can hold
it is searched until one record is left. -/
def bisect (seq : Nat) (rs : List Record) : Option Record :=
  if h : 1 < rs.length then
    have hhalf : rs.length / 2 < rs.length := by omega
    if seq < rs[rs.length / 2].seq then bisect seq (rs.take (rs.length - rs.length / 2))
    else bisect seq (rs.drop (rs.length / 2))
  else rs.head?.filter (·.seq = seq)
termination_by rs.length
decreasing_by
  · rw [List.length_take]; omega
  · rw [List.length_drop]; omega

/-- The numbers of records, and the first and the last of them. -/
structure Stats where
  total : Nat
  created : Nat
  updated : Nat
  deleted : Nat
  firstSeq : Option Nat
  lastSeq : Option Nat
  firstTime : Option Time.Instant
  lastTime : Option Time.Instant
deriving DecidableEq, Repr

namespace History

/-- The history before its first record. -/
def empty (limit : Option Nat) : History := ⟨limit, [], 1⟩

/-- The history with one more record, which has the number `nextSeq`. -/
def record (h : History) (change : Change) (time : Time.Instant) : History :=
  { h with
    records := latest h.limit (h.records ++ [⟨change, h.nextSeq, time⟩])
    nextSeq := h.nextSeq + 1 }

/-- Records a change: its number, and the history with the record. -/
def append (h : History) (change : Change) (time : Time.Instant) : Nat × History :=
  (h.nextSeq, h.record change time)

theorem nextSeq_record (h : History) (change : Change) (time : Time.Instant) :
    (h.record change time).nextSeq = h.nextSeq + 1 := rfl

/-- Without a limit, recording adds one record at the end and drops none. -/
theorem records_record {h : History} (change : Change) (time : Time.Instant)
    (hl : h.limit = none) :
    (h.record change time).records = h.records ++ [⟨change, h.nextSeq, time⟩] := by
  simp only [record, latest, hl]

/-- The history without records. The numbers go on. -/
def clear (h : History) : History := { h with records := [] }

/-- How many records are kept. -/
def size (h : History) : Nat := h.records.length

/-- No record is kept. -/
def isEmpty (h : History) : Bool := h.records.isEmpty

/-- The kept records of an item, oldest first. -/
def recordsFor (h : History) (item : ItemId) : List Record := h.records.filter (·.item = item)

/-- The latest kept record of an item. -/
def latestFor? (h : History) (item : ItemId) : Option Record :=
  h.records.reverse.find? (·.item = item)

theorem latestFor?_eq (h : History) (item : ItemId) :
    h.latestFor? item = (h.recordsFor item).getLast? :=
  List.getLast?_filter.symm

theorem mem_recordsFor_of_latestFor? (h : History) {item : ItemId} {r : Record}
    (hlast : h.latestFor? item = some r) : r ∈ h.recordsFor item := by
  rw [latestFor?_eq] at hlast
  exact List.mem_of_getLast? hlast

/-- The kept record with a number. -/
def get (h : History) (seq : Nat) : Except RecordNotFound Record :=
  match bisect seq h.records with
  | some r => .ok r
  | none => .error ⟨seq⟩

/-- How many kept records say that an item was created, updated or deleted. -/
def count (h : History) (action : Action) : Nat := h.records.countP (·.action = action)

/-- The numbers of a history. -/
def stats (h : History) : Stats where
  total := h.size
  created := h.count .created
  updated := h.count .updated
  deleted := h.count .deleted
  firstSeq := h.records.head?.map (·.seq)
  lastSeq := h.records.getLast?.map (·.seq)
  firstTime := h.records.head?.map (·.time)
  lastTime := h.records.getLast?.map (·.time)

end History

end ItemBudget.Journal
