import RuleEditor.Form.Basic

/-!
# Validation of forms

A form is checked before it is saved. The check goes through the form from top to bottom and reports
all that is missing; a form without issues is complete. What an operator says of values does not
matter here: every condition needs a path and a right side.

## Main definitions

* `Issue` — what can be missing, with its message.
* `Form.issues` — all that is missing in a form.
* `Form.compile` — the rule of a complete form.
-/

namespace RuleEditor

/-- Something that is missing in a form. Rows are counted from one, as they are shown. -/
inductive Issue where
  /-- The rule has no name. -/
  | name
  /-- No event is selected. -/
  | event
  /-- A condition has no path. -/
  | conditionPath (row : Nat)
  /-- A condition has neither a value nor a path to compare with. -/
  | conditionValue (row : Nat)
  /-- There are no conditions. -/
  | noConditions
  /-- There are no actions. -/
  | noActions
  /-- An action has no type. -/
  | actionType (row : Nat)
  /-- A required parameter of an action has no value. -/
  | param (row : Nat) (action param : String)
deriving DecidableEq, Repr

namespace Issue

/-- The text of a row's number. -/
def rowText (row : Nat) : String := String.ofList (Text.ofNat row)

/-- What is said of an issue. -/
def message : Issue → String
  | .name => "Rule name is required"
  | .event => "Select an event"
  | .conditionPath row => "Condition " ++ rowText row ++ ": path is required"
  | .conditionValue row => "Condition " ++ rowText row ++ ": value is required"
  | .noConditions => "Add at least one condition"
  | .noActions => "Add at least one action"
  | .actionType row => "Action " ++ rowText row ++ ": choose an action type"
  | .param row action label =>
    "Action " ++ rowText row ++ " (" ++ action ++ "): " ++ label ++ " is required"

end Issue

/-- What is said of a form with issues, given their messages. -/
def invalidMessage (messages : List String) : String :=
  "rule form has " ++ String.ofList (Text.ofNat messages.length) ++ " validation issue(s): "
    ++ String.intercalate "; " messages

/-- What is missing in a condition: a path, and a value or a path to compare with. The operator is
not asked for. -/
def ConditionRow.issues (r : ConditionRow) (row : Nat) : List Issue :=
  (if Text.isBlank r.path then [.conditionPath row] else [])
    ++ (if Text.isBlank r.value && r.referencedPath?.isNone then [.conditionValue row] else [])

/-- Whether the value of a parameter does not do for one that is required: a switch has to be on,
and a text or list must not be empty. Objects and variants always do. -/
def Catalog.Param.isMissing (p : Catalog.Param) (value : Option EditValue) : Bool :=
  match p.kind with
  | .boolean => !(value.map EditValue.toBool).getD false
  | .object | .variant _ _ => false
  | _ => (p.storedForm? value).isNone

/-- What is missing in a row of an action: its type, or values of required parameters that are
active. A type that the catalog does not know is no issue. -/
def ActionRow.issues (catalog : Catalog) (r : ActionRow) (row : Nat) : List Issue :=
  match catalog.action? (Text.trim r.type) with
  | some a =>
    (a.active r.params).filterMap fun p =>
      if p.required && p.isMissing (OrderedMap.get? r.params p.name) then
        some (.param row a.label p.displayLabel)
      else none
  | none => if Text.isBlank r.type then [.actionType row] else []

/-- The issues of rows that are counted from `row` on, row by row. Conditions and actions are
numbered in the same way, each from one. -/
def issuesOfRows {α : Type} (issues : α → Nat → List Issue) : List α → Nat → List Issue
  | [], _ => []
  | r :: rest, row => issues r row ++ issuesOfRows issues rest (row + 1)

namespace Form

/-- All that is missing in a form, from top to bottom: its own members, then the conditions, then
the actions. The order is that in which the messages are shown. -/
def issues (catalog : Catalog) (f : Form) : List Issue :=
  (if Text.isBlank f.name then [.name] else [])
    ++ (if Text.isBlank f.event then [.event] else [])
    ++ issuesOfRows ConditionRow.issues f.conditions 1
    ++ (if f.conditions.isEmpty then [.noConditions] else [])
    ++ (if f.actions.isEmpty then [.noActions] else [])
    ++ issuesOfRows (ActionRow.issues catalog) f.actions 1

/-- The rule that a complete form stands for, or what is missing. A form with issues is not saved in
part. -/
def compile (catalog : Catalog) (f : Form) : Except (List Issue) Rule :=
  match f.issues catalog with
  | [] => .ok (f.toRule catalog)
  | issues => .error issues

end Form

end RuleEditor
