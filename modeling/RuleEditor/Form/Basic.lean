import RuleEditor.Config
import RuleEditor.Form.ActionRow.Stored
import RuleEditor.Form.ConditionRow

/-!
# Forms

A form is a rule as it is edited: the texts of its members, a flat list of conditions under one
aggregator, and a row for each action. A rule is opened as a form and a form is saved as a rule.

## Main definitions

* `Form` — a form.
* `Form.new`, `Form.ofRule` — the form of a new rule and of a stored one.
* `Form.toRule` — the rule that a form stands for.
* `Form.ofJson?`, `Form.toJson` — reads and writes the record of a form.
-/

namespace RuleEditor

/-- A rule as it is edited. Texts are kept as they were typed, also where they do not stand for
anything; what they come to is settled when the form is saved. -/
structure Form where
  /-- The name. -/
  name : String := ""
  /-- What the rule is for. -/
  description : String := ""
  /-- The type of the event. -/
  event : String := ""
  /-- The priority, as it was typed. -/
  priority : String := ""
  /-- Whether the rule is in force. -/
  active : Bool := true
  /-- How the conditions are joined. -/
  aggregator : Aggregator := .and
  /-- The conditions. -/
  conditions : List ConditionRow := []
  /-- The actions. -/
  actions : List ActionRow := []
  /-- Whether the rule that was opened had groups that the list of conditions does not show. -/
  collapsedNesting : Bool := false
deriving Inhabited

namespace Form

/-! ## Opening -/

/-- The row of a condition that nothing is filled in of but the operator: the first one of the
catalog, or the one of the configuration if the catalog has none. -/
def blankCondition (catalog : Catalog) (config : Config) : ConditionRow where
  operator := (catalog.operators.head?.map (·.id)).getD config.defaultOperator

/-- The rows of a form that has no actions: one for the first action of the catalog. -/
def defaultActions (catalog : Catalog) (next : Nat) : List ActionRow :=
  (catalog.actions.head?.map (ActionRow.ofAction (ActionRow.idOf next))).toList

/-- The form of a new rule, with the first entries of the catalog filled in. Each action takes an id
from the counter `next`. -/
def new (catalog : Catalog) (config : Config) (next : Nat) : Form where
  event := (catalog.events.head?.map (·.type)).getD ""
  priority := String.ofList (Text.ofInt config.defaultPriority.toInt)
  conditions := [blankCondition catalog config]
  actions := defaultActions catalog next

/-- The conditions of a form with the given ones, or one to fill in if there are none. -/
def conditionRows (catalog : Catalog) (config : Config) : List Condition → List ConditionRow
  | [] => [blankCondition catalog config]
  | conditions => conditions.map ConditionRow.ofCondition

/-- The rows of stored actions, with ids from the counter `next`. -/
def storedRows (catalog : Catalog) : List StoredAction → Nat → List ActionRow
  | [], _ => []
  | a :: rest, next =>
    ActionRow.ofStored (ActionRow.idOf next) catalog a :: storedRows catalog rest (next + 1)

/-- The actions of a form with the given ones, or the default if there are none. -/
def actionRows (catalog : Catalog) (next : Nat) : List StoredAction → List ActionRow
  | [] => defaultActions catalog next
  | actions => storedRows catalog actions next

/-- The form of a stored rule. Each action takes an id from the counter `next`. Nested groups are
shown as one list, and the form remembers whether this lost grouping. -/
def ofRule (catalog : Catalog) (config : Config) (next : Nat) (r : Rule) : Form where
  name := r.name
  description := r.description.getD ""
  event := r.event
  priority := String.ofList (Text.ofInt r.priority.toInt)
  active := r.active
  aggregator := r.expression.aggregator
  conditions := conditionRows catalog config r.expression.flatten.conditions
  actions := actionRows catalog next r.actions
  collapsedNesting := r.expression.flatten.collapsedNesting

/-- The form of a rule that may be a new one. -/
def build (catalog : Catalog) (config : Config) (next : Nat) : Option Rule → Form
  | none => new catalog config next
  | some r => ofRule catalog config next r

/-- The counter behind the ids that building a form took, one for each action. -/
def nextId (f : Form) (next : Nat) : Nat := next + f.actions.length

/-! ## Saving -/

/-- The rule that a form stands for, whether or not it is complete. Texts are trimmed, a blank
description is none, and the expression is a single group. Whether grouping was lost on opening does
not matter here. -/
def toRule (catalog : Catalog) (f : Form) : Rule where
  name := Text.trim f.name
  description := Text.nonBlank? f.description
  event := Text.trim f.event
  priority := Priority.ofText f.priority
  active := f.active
  expression := .flat f.aggregator (f.conditions.map ConditionRow.toCondition)
  actions := f.actions.map (ActionRow.toStored catalog)

/-! ## Records -/

/-- The form of the record in text. -/
def shape : Json.Shape :=
  .record
    [("name", .any), ("description", .any), ("event", .any), ("priority", .any), ("active", .any),
      ("aggregator", .word), ("conditions", .list ConditionRow.shape),
      ("actions", .list ActionRow.shape), ("collapsed_nesting", .any)]

/-- Reads a member of the record other than the actions into a form. -/
def readMember? (f : Form) (name : String) (v : Json) : Option Form :=
  match name with
  | "name" => v.str?.map fun name => { f with name }
  | "description" => v.str?.map fun description => { f with description }
  | "event" => v.str?.map fun event => { f with event }
  | "priority" => v.str?.map fun priority => { f with priority }
  | "active" => v.bool?.map fun active => { f with active }
  | "aggregator" =>
    ((Json.word? v).bind Aggregator.ofName?).map fun aggregator => { f with aggregator }
  | "conditions" =>
    (Json.listOf? ConditionRow.ofJson? v).map fun conditions => { f with conditions }
  | "collapsed_nesting" => v.bool?.map fun collapsedNesting => { f with collapsedNesting }
  | _ => some f

/-- Reads the members of the record into a form, one after the other. Rows without an id take one
from the counter `next`, and if a member cannot be read the ids taken before stay taken. The counter
therefore comes back in any case. -/
def readMembers : List (String × Json) → Form → Nat → Option Form × Nat
  | [], f, next => (some f, next)
  | (name, v) :: rest, f, next =>
    if name = "actions" then
      match v with
      | .arr items =>
        match ActionRow.listOfItems items next with
        | (some actions, next) => readMembers rest { f with actions } next
        | (none, next) => (none, next)
      | _ => (none, next)
    else
      match f.readMember? name v with
      | some f => readMembers rest f next
      | none => (none, next)

/-- Reads the record of a form. Members that are missing have the values of the empty form. A list
that is longer than the record is refused behind the last member, when ids have been taken. -/
def ofJson? (v : Json) (next : Nat) : Option Form × Nat :=
  match v with
  | .obj members => readMembers members {} next
  | .arr items =>
    let (f, next) := readMembers (shape.names.zip items) {} next
    (if items.length ≤ shape.names.length then f else none, next)
  | _ => (none, next)

/-- Reads a form from text. If there is a fault in the text, the rows before it keep the ids that
they took. -/
def ofText? (s : String) (next : Nat) : Option Form × Nat :=
  match Json.parseAs? shape s with
  | some v => ofJson? v next
  | none => (none, (ofJson? (Json.parseBeforeFault shape s) next).2)

/-- Writes the record of a form. -/
def toJson (f : Form) : Json :=
  .obj ([("name", .str f.name), ("description", .str f.description), ("event", .str f.event),
      ("priority", .str f.priority), ("active", .bool f.active),
      ("aggregator", .str f.aggregator.name),
      ("conditions", .arr (f.conditions.map ConditionRow.toJson)),
      ("actions", .arr (f.actions.map ActionRow.toJson))]
    ++ Json.flagIf "collapsed_nesting" f.collapsedNesting)

/-! ## Equality -/

/-- Equality with rows of actions compared by a given test. -/
def sameBy (sameRow : ActionRow → ActionRow → Bool) (a b : Form) : Bool :=
  a.name == b.name && a.description == b.description && a.event == b.event
    && a.priority == b.priority && a.active == b.active && a.aggregator == b.aggregator
    && a.conditions == b.conditions && a.actions.length == b.actions.length
    && ((a.actions.zip b.actions).all fun (x, y) => sameRow x y)
    && a.collapsedNesting == b.collapsedNesting

/-- Equality, with values compared as such: members of objects may stand in another order. The ids
of rows count. -/
def same (a b : Form) : Bool := sameBy ActionRow.same a b

/-- Equality apart from the ids of rows, with values compared as such. -/
def sameContent (a b : Form) : Bool := sameBy ActionRow.sameContent a b

end Form

end RuleEditor
