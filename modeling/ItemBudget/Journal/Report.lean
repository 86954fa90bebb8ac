import ItemBudget.Decimal.Layout
import ItemBudget.Journal.History
import ItemBudget.Table

/-!
# Reports

A report counts the records of a history by action, item and actor, and sums up their changes. In
its text the actors stand by the number of their changes, the largest first, and then by name.
-/

namespace ItemBudget.Journal

/-- A report on a whole history. -/
structure Report where
  stats : Stats
  /-- How many items have a record. -/
  items : Nat
  /-- The sum of the changes of the cost. -/
  net : Float
  /-- Every actor once, by name, and the number of changes. -/
  actors : List (String × Nat)
deriving DecidableEq

/-- A list without the elements that are followed by their equal. -/
def withoutRepeats {α : Type} [DecidableEq α] : List α → List α
  | a :: b :: xs => if a = b then withoutRepeats (b :: xs) else a :: withoutRepeats (b :: xs)
  | xs => xs

/-- One more change by an actor. -/
def tally (counts : Table Nat) (actor : String) : Table Nat :=
  counts.insert actor ((counts.get? actor).getD 0 + 1)

/-- How many changes every actor made, counted one change after another. -/
def tallied (actors : List String) : Table Nat := actors.foldl tally ∅

namespace History

/-- The items with a record, each once, in the order of their numbers. -/
def items (h : History) : List ItemId :=
  withoutRepeats ((h.records.map (·.item)).mergeSort fun a b => a ≤ b)

/-- The report on a history. -/
def report (h : History) : Report where
  stats := h.stats
  items := h.items.length
  net := round2 ((h.records.map (·.delta)).foldl (· + ·) 0.0)
  actors := (tallied (h.records.map (·.actor))).entries.mergeSort fun a b => a.1 ≤ b.1

end History

namespace Report

/-- An actor with more changes stands first; of equal numbers the lesser name. -/
def ranksBefore (a b : String × Nat) : Bool := b.2 < a.2 || (a.2 = b.2 && a.1 ≤ b.1)

/-- The actors by the number of their changes, the largest first; of equal numbers by name. -/
def ranking (r : Report) : List (String × Nat) := r.actors.mergeSort ranksBefore

/-- The lines before the actors. -/
def heading (r : Report) : List String :=
  ["=== Audit Report ===",
    s!"Total records: {r.stats.total}",
    s!"Created: {r.stats.created}",
    s!"Updated: {r.stats.updated}",
    s!"Deleted: {r.stats.deleted}",
    s!"Items touched: {r.items}",
    s!"Net budget change: {Decimal.fixed 2 r.net}"]
  ++ match r.stats.firstSeq, r.stats.lastSeq with
    | some first, some last => [s!"Sequence range: {first} - {last}"]
    | _, _ => []

/-- The lines about the actors. -/
def actorLines (r : Report) : List String :=
  if r.actors.isEmpty then []
  else ["", "Changes by actor:"] ++ r.ranking.map fun a => s!"  {a.1}: {a.2}"

/-- The lines of a report. -/
def lines (r : Report) : List String := r.heading ++ r.actorLines

/-- The text of a report. -/
def text (r : Report) : String := String.join (r.lines.map (· ++ "\n"))

end Report

end ItemBudget.Journal
