import RuleEditor.Expression.Flatten
import RuleEditor.Json.Record
import RuleEditor.Priority

/-!
# Rules

A rule as it is stored: what sets it off, under which condition, and what it does. Stores are read
leniently: a member that is missing or `null` has a default, a priority may be any number or a
numeric text, and a rule is active unless it says exactly that it is not.

## Main definitions

* `StoredAction` — an action of a rule with its parameters.
* `Rule` — a rule.
* `Rule.ofJson?`, `Rule.toJson` — reads and writes the record of a rule.
-/

namespace RuleEditor

/-- An action of a rule. Its parameters are kept as they were stored: a rule can be read, saved and
exported without a catalog. -/
structure StoredAction where
  /-- The type, which the catalog may know. -/
  type : String
  /-- The values of the parameters. -/
  params : Json.Object := []
deriving Inhabited

namespace StoredAction

/-- The form of the record in text. -/
def shape : Json.Shape := .ofNames ["type", "params"]

/-- Reads the record of an action. -/
def ofJson? (v : Json) : Option StoredAction := do
  let o ← Json.fields? shape.names v
  let type ← o.orElseNull Json.str? "" "type"
  let params ← o.orElseNull Json.obj? [] "params"
  return { type, params }

/-- Writes the record of an action. -/
def toJson (a : StoredAction) : Json := .obj [("type", .str a.type), ("params", .obj a.params)]

/-- Equality, with parameters compared as values. -/
def same (a b : StoredAction) : Bool := a.type == b.type && Json.Object.same a.params b.params

end StoredAction

/-- A rule as it is stored. All members have defaults, which are what a store that leaves them out
is taken to mean. -/
structure Rule where
  /-- The name. -/
  name : String := ""
  /-- What the rule is for. -/
  description : Option String := none
  /-- The type of the event that sets the rule off. -/
  event : String := ""
  /-- The priority among rules. -/
  priority : Int64 := 0
  /-- Whether the rule is in force. -/
  active : Bool := true
  /-- The condition. -/
  expression : Expression := .empty
  /-- What the rule does. -/
  actions : List StoredAction := []
deriving Inhabited

namespace Rule

/-- The form of the record in text. -/
def shape : Json.Shape :=
  .record
    [("name", .any), ("description", .any), ("event", .any), ("priority", .any), ("active", .any),
      ("expression", .any), ("actions", .list StoredAction.shape)]

/-- Whether a value says that a rule is active: every value but `false` does, also `null` and the
text of `false`. A rule is not put out of force by a misspelling. -/
def activeOfJson : Json → Bool
  | .bool false => false
  | _ => true

/-- Whether a rule is active is read back from a truth value, which is how it is written. -/
@[simp] theorem activeOfJson_bool (b : Bool) : activeOfJson (.bool b) = b := by
  cases b <;> rfl

/-- Reads the record of a rule. It is refused only if it is no record, or if its name, description,
event or actions are values of the wrong kind. -/
def ofJson? (v : Json) : Option Rule := do
  let o ← Json.fields? shape.names v
  let name ← o.orElseNull Json.str? "" "name"
  let description ← o.optional Json.str? "description"
  let event ← o.orElseNull Json.str? "" "event"
  let actions ← o.orElseNull (Json.listOf? StoredAction.ofJson?) [] "actions"
  return {
    name
    description
    event
    priority := ((OrderedMap.get? o "priority").map Priority.ofJson).getD 0
    active := ((OrderedMap.get? o "active").map activeOfJson).getD true
    expression := ((OrderedMap.get? o "expression").map Expression.ofJson).getD .empty
    actions }

/-- Reads a rule from text. -/
def ofText? (s : String) : Option Rule := (Json.parseAs? shape s).bind ofJson?

/-- Writes the record of a rule. All members are written but for a description that is missing. -/
def toJson (r : Rule) : Json :=
  .obj ([("name", .str r.name)]
    ++ Json.memberIf "description" (r.description.map .str)
    ++ [("event", .str r.event), ("priority", .ofInt64 r.priority), ("active", .bool r.active),
      ("expression", r.expression.toJson), ("actions", .arr (r.actions.map StoredAction.toJson))])

/-- Equality, with values compared as such. -/
def same (a b : Rule) : Bool :=
  a.name == b.name && a.description == b.description && a.event == b.event
    && a.priority == b.priority && a.active == b.active && a.expression.same b.expression
    && a.actions.length == b.actions.length
    && (a.actions.zip b.actions).all fun (x, y) => x.same y

end Rule

end RuleEditor
