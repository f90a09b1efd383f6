import RuleEditor.Json.Record
import RuleEditor.Json.Lenient

/-!
# Events of a catalog

An event is what sets a rule off. A catalog lists the events that a rule may be written for.

## Main definitions

* `keepFirst` — a list without the entries whose key came before.
* `Catalog.Event` — an event with its label.
* `Catalog.Event.listOfRaw` — the events of a raw catalog section.
-/

namespace RuleEditor

/-- A list without the entries whose key is that of an earlier entry; the first entry of each key
stays, and the order is kept. All lists of a raw catalog are tidied in this way, each by its own
key. -/
def keepFirst {α : Type} (key : α → String) : List α → List α
  | [] => []
  | x :: rest => x :: (keepFirst key rest).filter fun y => key y != key x

namespace Catalog

/-- An event that rules can be written for. A catalog only names events; what their values look like
is not declared. -/
structure Event where
  /-- The name by which rules refer to the event. -/
  type : String
  /-- The name to show. -/
  label : String := type
  /-- What the event is. -/
  description : Option String := none
deriving DecidableEq, Repr, Inhabited

namespace Event

/-- The form of the record in text. -/
def shape : Json.Shape := .ofNames ["type", "label", "description"]

/-- Reads the record of an event. -/
def ofJson? (v : Json) : Option Event := do
  let o ← Json.fields? shape.names v
  let type ← o.required Json.str? "type"
  let label ← o.required Json.str? "label"
  let description ← o.optional Json.str? "description"
  return { type, label, description }

/-- Writes the record of an event. -/
def toJson (e : Event) : Json :=
  .obj ([("type", .str e.type), ("label", .str e.label)]
    ++ Json.memberIf "description" (e.description.map .str))

/-- Reads an entry of a raw catalog. It has to name its type; the type also serves as the label of
an entry without one. Unlike with operators and actions, `name` goes before `label`. -/
def ofRaw? (v : Json) : Option Event := do
  let o ← v.obj?
  let type ← o.text? ["type"]
  return {
    type
    label := (o.text? ["name", "label"]).getD type
    description := o.text? ["description"] }

/-- The events of a raw catalog section: entries that cannot be read are dropped, and so are entries
whose type came before. -/
def listOfRaw (v : Json) : List Event :=
  keepFirst Event.type ((v.arr?.getD []).filterMap ofRaw?)

end Event

end Catalog

end RuleEditor
