import ItemBudget.Document.Journal
import ItemBudget.Json.Writer

/-!
# Exports

A history is exported as a RON text, as a JSON text, or as lines for a reader. The documents hold a
version, the history's numbers and its records; the lines show the same, one line for a record.
-/

namespace ItemBudget.Journal

/-- The forms of an export. -/
inductive ExportFormat where
  | ron | json | text
deriving DecidableEq, Repr

/-- A side of a change in a line. -/
def sideText (cost : Option Float) : String := cost.elim "-" costText

/-- A change of a cost in a line; an increase has a sign. -/
def deltaText (delta : Float) : String :=
  (if 0.0 < delta then "+" else "") ++ costText delta

/-- What the line of a record shows. -/
def Record.shown (r : Record) : String :=
  s!"  #{r.seq} {itemIdText r.item} {r.action.name} by {r.actor}: "
    ++ s!"{sideText r.before} -> {sideText r.after} ({deltaText r.delta})  at {r.time.text}"

/-- The line of a record. -/
def Record.line (r : Record) : String := r.shown ++ "\n"

/-- The version of exported documents. -/
def exportVersion : Nat := 1

namespace History

/-- The JSON node of a history. -/
def toJson (h : History) : Json.Node :=
  .ofFields [("version", .ofNat exportVersion), ("stats", h.stats.toJson),
    ("records", .array (h.records.map Record.toJson))]

/-- The RON node of a history. -/
def toRon (h : History) : Ron.Node :=
  .ofFields [("version", .ofNat exportVersion), ("stats", h.stats.toRon),
    ("records", .list (h.records.map Record.toRon))]

/-- The lines of a history's records. -/
def recordLines (h : History) : String := String.join (h.records.map Record.line)

/-- The heading of a history: its numbers and the span of its times. -/
def heading (h : History) : String :=
  let s := h.stats
  let span := match s.firstTime, s.lastTime with
    | some first, some last => s!"Time range: {first.text} - {last.text}\n"
    | _, _ => ""
  "=== History Export ===\n\n" ++ s!"Total records: {s.total}\n"
    ++ s!"Created: {s.created}, Updated: {s.updated}, Deleted: {s.deleted}\n" ++ span

/-- The history as lines. -/
def text (h : History) : String := h.heading ++ "\n=== Records ===\n\n" ++ h.recordLines

/-- The text of a history in a format. -/
def exported (h : History) : ExportFormat → String
  | .ron => Ron.pretty h.toRon
  | .json => Json.pretty h.toJson
  | .text => h.text

end History

end ItemBudget.Journal
