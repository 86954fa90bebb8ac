import ItemBudget.Document.View
import ItemBudget.Journal.History
import ItemBudget.Json.Node
import ItemBudget.Ron.Writer
import ItemBudget.Time.Reader

/-!
# Records in documents
-/

namespace ItemBudget.Journal

variable {ν : Type} [Document ν]

/-- The names of the actions. -/
def Action.names : List (String × Action) :=
  [("Created", .created), ("Updated", .updated), ("Deleted", .deleted)]

/-- The name of an action in a document. -/
def Action.title : Action → String
  | .created => "Created"
  | .updated => "Updated"
  | .deleted => "Deleted"

/-- Reads an action. -/
def Action.ofDocument? (n : ν) : Option Action := Document.oneOf? names n

/-- The JSON node of an action. -/
def Action.toJson (a : Action) : Json.Node := .ofString a.title

/-- Reads an instant. -/
def timeOfDocument? (n : ν) : Option Time.Instant := do
  Time.Instant.ofText? (← Document.text? n)

/-- Reads a record. -/
def Record.ofDocument? (n : ν) : Option Record := do
  let f ← Document.record? "HistoryRecord"
    ["seq", "item_id", "action", "actor", "budget_before", "budget_after", "recorded_at"] n
  return {
    seq := ← f.required "seq" (Document.natural? 64)
    item := ← f.required "item_id" (Document.natural? 64)
    action := ← f.required "action" Action.ofDocument?
    actor := ← f.required "actor" Document.text?
    before := ← f.optional "budget_before" Document.number?
    after := ← f.optional "budget_after" Document.number?
    time := ← f.required "recorded_at" timeOfDocument? }

/-- The JSON node of a record. -/
def Record.toJson (r : Record) : Json.Node :=
  .ofFields [("seq", .ofNat r.seq), ("item_id", .ofNat r.item), ("action", r.action.toJson),
    ("actor", .ofString r.actor), ("budget_before", .ofOption .ofFloat r.before),
    ("budget_after", .ofOption .ofFloat r.after), ("recorded_at", .ofString r.time.zuluText)]

/-- The RON node of a record. -/
def Record.toRon (r : Record) : Ron.Node :=
  .ofFields [("seq", .ofNat r.seq), ("item_id", .ofNat r.item), ("action", .ofWord r.action.title),
    ("actor", .ofString r.actor), ("budget_before", .ofOption .ofFloat r.before),
    ("budget_after", .ofOption .ofFloat r.after), ("recorded_at", .ofString r.time.zuluText)]

/-- The JSON node of a history's numbers. -/
def Stats.toJson (s : Stats) : Json.Node :=
  .ofFields [("total_records", .ofNat s.total), ("created", .ofNat s.created),
    ("updated", .ofNat s.updated), ("deleted", .ofNat s.deleted),
    ("first_seq", .ofOption .ofNat s.firstSeq), ("last_seq", .ofOption .ofNat s.lastSeq),
    ("first_at", .ofOption (.ofString ·.zuluText) s.firstTime),
    ("last_at", .ofOption (.ofString ·.zuluText) s.lastTime)]

/-- The RON node of a history's numbers. -/
def Stats.toRon (s : Stats) : Ron.Node :=
  .ofFields [("total_records", .ofNat s.total), ("created", .ofNat s.created),
    ("updated", .ofNat s.updated), ("deleted", .ofNat s.deleted),
    ("first_seq", .ofOption .ofNat s.firstSeq), ("last_seq", .ofOption .ofNat s.lastSeq),
    ("first_at", .ofOption (.ofString ·.zuluText) s.firstTime),
    ("last_at", .ofOption (.ofString ·.zuluText) s.lastTime)]

end ItemBudget.Journal
