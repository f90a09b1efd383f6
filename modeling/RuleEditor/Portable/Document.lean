import RuleEditor.Rule

/-!
# Portable documents

A portable document is a rule without nesting: the comparisons are one list under one aggregator.
It does not refer to a catalog, so that it can be carried from one installation to another.

## Main definitions

* `Portable.Condition`, `Portable.Action`, `Portable.Document` — the document and its parts.
* `Rule.toDocument` — the document of a rule.
* `Portable.Document.ofJson?`, `Portable.Document.toJson` — reads and writes the record of a
  document.
-/

namespace RuleEditor

namespace Portable

/-- A comparison in a portable document. The two sorts of right sides have names of their own, so
that a literal is never taken for a path. -/
structure Condition where
  /-- The path of the left side. -/
  path : String
  /-- The operator. -/
  operator : String
  /-- The right side, if it is a literal. -/
  value : Option Json := none
  /-- The right side, if it is a path. -/
  comparePath : Option String := none
deriving Inhabited

/-- An action in a portable document, with its parameters as they were stored. Nothing is said about
what they mean. -/
structure Action where
  /-- The type. -/
  type : String
  /-- The values of the parameters. -/
  params : Json.Object := []
deriving Inhabited

/-- A rule without nesting, as it is carried from one installation to another. All members are
written, also those that are empty, so that a document shows what can be said in it. -/
structure Document where
  /-- The name. -/
  name : String
  /-- What the rule is for; empty if nothing is said. -/
  description : String
  /-- The type of the event. -/
  event : String
  /-- The priority. -/
  priority : Int64
  /-- Whether the rule is in force. -/
  active : Bool
  /-- How the conditions are joined. -/
  aggregator : Aggregator
  /-- The conditions. -/
  conditions : List Condition
  /-- The actions. -/
  actions : List Action
deriving Inhabited

namespace Condition

/-- The portable form of a comparison. A right side goes under one of two names, as it is a literal
or a path. -/
def ofCondition (c : RuleEditor.Condition) : Condition where
  path := c.path
  operator := c.op
  value := c.right.bind Operand.literal?
  comparePath := c.right.bind Operand.path?

/-- The form of the record in text. -/
def shape : Json.Shape := .ofNames ["path", "operator", "value", "comparePath"]

/-- Reads the record of a comparison. -/
def ofJson? (v : Json) : Option Condition := do
  let o ← Json.fields? shape.names v
  let path ← o.required Json.str? "path"
  let operator ← o.required Json.str? "operator"
  let value ← o.optional some "value"
  let comparePath ← o.optional Json.str? "comparePath"
  return { path, operator, value, comparePath }

/-- Writes the record of a comparison. -/
def toJson (c : Condition) : Json :=
  .obj ([("path", .str c.path), ("operator", .str c.operator)]
    ++ Json.memberIf "value" c.value
    ++ Json.memberIf "comparePath" (c.comparePath.map .str))

end Condition

namespace Action

/-- The form of the record in text. -/
def shape : Json.Shape := .ofNames ["type", "params"]

/-- Reads the record of an action. -/
def ofJson? (v : Json) : Option Action := do
  let o ← Json.fields? shape.names v
  let type ← o.required Json.str? "type"
  let params ← o.orElse Json.obj? [] "params"
  return { type, params }

/-- Writes the record of an action. -/
def toJson (a : Action) : Json := .obj [("type", .str a.type), ("params", .obj a.params)]

end Action

namespace Document

/-- The form of the record in text. -/
def shape : Json.Shape :=
  .record
    [("name", .any), ("description", .any), ("event", .any), ("priority", .any), ("active", .any),
      ("aggregator", .word), ("conditions", .list Condition.shape),
      ("actions", .list Action.shape)]

/-- Reads the record of a document. -/
def ofJson? (v : Json) : Option Document := do
  let o ← Json.fields? shape.names v
  let name ← o.required Json.str? "name"
  let description ← o.required Json.str? "description"
  let event ← o.required Json.str? "event"
  let priority ← o.required Json.int64? "priority"
  let active ← o.required Json.bool? "active"
  let aggregator ← o.required (fun v => (Json.word? v).bind Aggregator.ofName?) "aggregator"
  let conditions ← o.required (Json.listOf? Condition.ofJson?) "conditions"
  let actions ← o.required (Json.listOf? Action.ofJson?) "actions"
  return { name, description, event, priority, active, aggregator, conditions, actions }

/-- Writes the record of a document. -/
def toJson (d : Document) : Json :=
  .obj [("name", .str d.name), ("description", .str d.description), ("event", .str d.event),
    ("priority", .ofInt64 d.priority), ("active", .bool d.active),
    ("aggregator", .str d.aggregator.name),
    ("conditions", .arr (d.conditions.map Condition.toJson)),
    ("actions", .arr (d.actions.map Action.toJson))]

end Document

end Portable

/-- The portable document of a rule. A description that is missing becomes empty, and the tree of
comparisons becomes a list under the aggregator of the root; whether this loses grouping is reported
by flattening and not recorded here. -/
def Rule.toDocument (r : Rule) : Portable.Document where
  name := r.name
  description := r.description.getD ""
  event := r.event
  priority := r.priority
  active := r.active
  aggregator := r.expression.aggregator
  conditions := r.expression.flatten.conditions.map Portable.Condition.ofCondition
  actions := r.actions.map fun a => { type := a.type, params := a.params }

/-- The text of the portable document of a rule, indented for reading. -/
def Rule.exportText (r : Rule) : String := r.toDocument.toJson.pretty

end RuleEditor
