import RuleEditor.Portable.Document

/-!
# Import of portable documents

Importing is strict about what makes a rule: conditions with a path and an operator, and actions
with a type. The first thing missing is reported. Everything else is read leniently. The right side
of a condition may be given in four ways, of which the first that is there counts.

## Main definitions

* `Portable.ImportError` — why a document is refused, with its message.
* `Portable.importJson`, `Portable.importText` — the rule of a document.
-/

namespace RuleEditor.Portable

/-- Why a document is refused. Conditions and actions are counted from one, as a reader of the
message would count them. -/
inductive ImportError where
  /-- The text is blank. -/
  | emptyInput
  /-- The text is no JSON. -/
  | invalidJson
  /-- The document is no object. -/
  | notAnObject
  /-- There is no list of conditions, or it is empty. -/
  | noConditions
  /-- A condition has no path. -/
  | conditionMissingPath (index : Nat)
  /-- A condition has no operator. -/
  | conditionMissingOperator (index : Nat)
  /-- There is no list of actions, or it is empty. -/
  | noActions
  /-- An action has no type. -/
  | actionMissingType (index : Nat)
deriving DecidableEq, Repr

namespace ImportError

/-- What is said of a refusal. For a text that is no JSON it is only the beginning of what is
said. -/
def message : ImportError → String
  | .emptyInput => "import document is empty; paste an exported rule JSON"
  | .invalidJson => "import document is not valid JSON: "
  | .notAnObject => "import document must be a JSON object"
  | .noConditions => "import document must contain at least one condition"
  | .conditionMissingPath index => "condition " ++ indexText index ++ " is missing `path`"
  | .conditionMissingOperator index => "condition " ++ indexText index ++ " is missing `operator`"
  | .noActions => "import document must contain at least one action"
  | .actionMissingType index => "action " ++ indexText index ++ " is missing `type`"
where
  indexText (index : Nat) : String := String.ofList (Text.ofNat index)

end ImportError

/-- The text of a member that is not blank, as it is: blanks around the text are kept. -/
def nonBlankMember? (o : Json.Object) (name : String) : Option String :=
  ((OrderedMap.get? o name).bind Json.str?).filter fun s => !Text.isBlank s

/-- A member that is not `null`, whatever else its value is. -/
def presentMember? (o : Json.Object) (name : String) : Option Json :=
  (OrderedMap.get? o name).filter fun v => !v.isNull

/-- The right side of a condition: a path under `comparePath`, or an operand under `right`, or a
literal under `value` or under `values`. The first that is there counts, where a path under
`comparePath` has to be a text that is not blank and the others anything but `null`. -/
def rightSide? (o : Json.Object) : Option Operand :=
  (((nonBlankMember? o "comparePath").map .path).or
    ((presentMember? o "right").map .ofJson)).or
    (((presentMember? o "value").or (presentMember? o "values")).map .literal)

/-- Imports the condition with an index. The path is asked for first, so that a condition with
neither path nor operator is refused for its path, and so is a value that is no object. -/
def importCondition (index : Nat) (v : Json) : Except ImportError RuleEditor.Condition :=
  match v.obj?.bind fun o => (nonBlankMember? o "path").map (o, ·) with
  | none => .error (.conditionMissingPath index)
  | some (o, path) =>
    match nonBlankMember? o "operator" with
    | none => .error (.conditionMissingOperator index)
    | some op => .ok { op, path, right := rightSide? o }

/-- Imports the action with an index. Only the type is required; parameters that are missing or no
object are none. -/
def importAction (index : Nat) (v : Json) : Except ImportError StoredAction :=
  match v.obj?.bind fun o => (nonBlankMember? o "type").map (o, ·) with
  | none => .error (.actionMissingType index)
  | some (o, type) =>
    .ok { type, params := ((OrderedMap.get? o "params").bind Json.obj?).getD [] }

/-- Imports the items of a list, which are counted from `index` on. The first fault ends it, and
later items are not looked at. -/
def importItems {α : Type} (importItem : Nat → Json → Except ImportError α) :
    List Json → Nat → Except ImportError (List α)
  | [], _ => .ok []
  | v :: rest, index =>
    match importItem index v with
    | .error e => .error e
    | .ok a =>
      match importItems importItem rest (index + 1) with
      | .error e => .error e
      | .ok more => .ok (a :: more)

/-- Imports a member that is a list with at least one item. A member that is missing or no list is
reported in the same way as an empty list. -/
def importList {α : Type} (importItem : Nat → Json → Except ImportError α) (missing : ImportError)
    (o : Json.Object) (name : String) : Except ImportError (List α) :=
  match (OrderedMap.get? o name).bind Json.arr? with
  | some (v :: rest) => importItems importItem (v :: rest) 1
  | _ => .error missing

/-- The text of a member, or the empty text. -/
def textMember (o : Json.Object) (name : String) : String :=
  ((OrderedMap.get? o name).bind Json.str?).getD ""

/-- The rule that the members of a document describe, given its conditions and actions. None of
these members can be at fault: each of them has a value to fall back on. -/
def ruleOfMembers (o : Json.Object) (conditions : List RuleEditor.Condition)
    (actions : List StoredAction) : Rule :=
  let aggregator :=
    (((OrderedMap.get? o "aggregator").bind Json.str?).map Aggregator.ofText).getD .and
  { name := textMember o "name"
    description := (some (textMember o "description")).filter fun s => !Text.isBlank s
    event := textMember o "event"
    priority := ((OrderedMap.get? o "priority").map Priority.ofJson).getD 0
    active := ((OrderedMap.get? o "active").map Rule.activeOfJson).getD true
    expression := .flat aggregator conditions
    actions }

/-- Imports a document. Conditions come before actions, so that a document with faults in both is
refused for a condition. -/
def importJson (v : Json) : Except ImportError Rule :=
  match v with
  | .obj o =>
    match importList importCondition .noConditions o "conditions" with
    | .error e => .error e
    | .ok conditions =>
      match importList importAction .noActions o "actions" with
      | .error e => .error e
      | .ok actions => .ok (ruleOfMembers o conditions actions)
  | _ => .error .notAnObject

/-- Imports the text of a document, which may be blank or no JSON for a start. -/
def importText (s : String) : Except ImportError Rule :=
  if Text.isBlank s then .error .emptyInput
  else
    match Json.parse? s with
    | none => .error .invalidJson
    | some v => importJson v

end RuleEditor.Portable
