import RuleEditor.Catalog.Action
import RuleEditor.Catalog.Operator

/-!
# Catalogs

A catalog lists the events, operators and actions that rules can be made of. It is given as a JSON
document with a section for each of them, all optional.

## Main definitions

* `Catalog` — the three lists.
* `Catalog.positions`, `Catalog.operatorLabels` — the tables that are made of the lists.
* `Catalog.event?`, `Catalog.operator?`, `Catalog.action?` — look-ups by name. Of events with one
  type the first counts, of operators with one id and of actions with one type the last.
* `Catalog.operatorLabel` — the name to show for an operator, which may be given by an alias.
* `Catalog.ofRaw`, `Catalog.ofText?` — the catalog of a raw document.
-/

namespace RuleEditor

/-- The events, operators and actions that rules can be made of. The lists may come from anywhere:
keys that are repeated are allowed for, and the look-ups below settle which entry counts. -/
structure Catalog where
  /-- The events. -/
  events : List Catalog.Event := []
  /-- The operators. -/
  operators : List Catalog.Operator := []
  /-- The actions. -/
  actions : List Catalog.Action := []
deriving Inhabited

namespace Catalog

/-! ## Tables -/

/-- The positions of the entries of a list by their keys. A key that comes again takes the later
position, since the table is written entry by entry. -/
def positions {α : Type} (key : α → String) (entries : List α) : OrderedMap Nat :=
  OrderedMap.ofList (entries.zipIdx.map fun (entry, i) => (key entry, i))

/-- Adds the label of a name, unless the name has one. So the first operator that claims a name
gives it its label. -/
def addLabel (labels : OrderedMap String) (name label : String) : OrderedMap String :=
  if OrderedMap.contains labels name then labels else OrderedMap.insert labels name label

/-- All ids and aliases of operators with the names to show for them: first the ids, then the
aliases that are no ids. An id is therefore never shown with the label of an operator that has it
for an alias. -/
def operatorLabels (c : Catalog) : OrderedMap String :=
  let ids := c.operators.foldl (fun labels op => addLabel labels op.id op.label) []
  c.operators.foldl
    (fun labels op => op.aliases.foldl (fun labels name => addLabel labels name op.label) labels)
    ids

/-! ## Look-ups -/

/-- The entry of a list whose position is listed under a key, which is the last one with that key
(`Catalog.lookUp_eq_getLast?`). -/
def lookUp {α : Type} (key : α → String) (entries : List α) (name : String) : Option α :=
  (OrderedMap.get? (positions key entries) name).bind fun i => entries[i]?

/-- The first event of a type. Events are searched for in their list; they have no table of
positions. -/
def event? (c : Catalog) (type : String) : Option Event := c.events.find? (·.type = type)

/-- The last operator of an id. Aliases do not count. -/
def operator? (c : Catalog) (id : String) : Option Operator := lookUp Operator.id c.operators id

/-- The last action of a type. The text is compared as it is; whoever looks up a type that was typed
trims it first. -/
def action? (c : Catalog) (type : String) : Option Action := lookUp Action.type c.actions type

/-- The name to show for an operator, which may be given by its id or by an alias; one that is not
known is shown as it is. -/
def operatorLabel (c : Catalog) (id : String) : String :=
  (OrderedMap.get? c.operatorLabels id).getD id

/-- The name to show for an event; one that is not known is shown as it is. -/
def eventLabel (c : Catalog) (type : String) : String :=
  ((c.event? type).map (·.label)).getD type

/-! ## Reading -/

/-- The catalog of three raw sections. Each section is read and tidied on its own; entries that
cannot be read are dropped. -/
def ofSections (events operators actions : Json) : Catalog where
  events := Event.listOfRaw events
  operators := Operator.listOfRaw operators
  actions := Action.listOfRaw actions

/-- The form of the document in text. -/
def shape : Json.Shape := .ofNames ["events", "operators", "actions"]

/-- The catalog of a raw document; a missing section is empty, and so is one that is no list. -/
def ofRaw? (v : Json) : Option Catalog := do
  let o ← Json.fields? shape.names v
  let events ← o.orElse some .null "events"
  let operators ← o.orElse some .null "operators"
  let actions ← o.orElse some .null "actions"
  return ofSections events operators actions

/-- The catalog of a text. -/
def ofText? (s : String) : Option Catalog := (Json.parseAs? shape s).bind ofRaw?

end Catalog

end RuleEditor
