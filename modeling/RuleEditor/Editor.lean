import RuleEditor.Form.Validation
import RuleEditor.Portable.Import

/-!
# Editing sessions

A session edits one form at a time against a catalog. It remembers the rule that was last saved or
imported, and counts the ids that rows have taken. Rows are addressed by their position, from zero;
an edit of a row that is not there is refused.

## Main definitions

* `Editor` — the state of a session.
* `Editor.start` — a session with a new form.
* `Editor.openRule`, `Editor.reopen` — replaces the form by that of a rule.
* `Editor.compile`, `Editor.compileUnchecked`, `Editor.importText` — makes a rule.
* `Editor.updateAction?`, `Editor.updateCondition?` and their like — edits a row.
-/

namespace RuleEditor

/-- The state of an editing session. The counter of ids belongs to it, so that all rows of a session
that take an id from it have different ones. -/
structure Editor where
  /-- What the form is edited against. -/
  catalog : Catalog
  /-- The defaults of new forms. -/
  config : Config
  /-- The number of the next id. -/
  nextId : Nat
  /-- The form that is being edited. -/
  form : Form
  /-- The rule that was last saved or imported. -/
  rule : Option Rule := none
deriving Inhabited

namespace Editor

/-- Replaces the form by that of a rule, or of a new one. The ids that the old form had are not
given again. -/
def openRule (e : Editor) (rule : Option Rule) : Editor :=
  let form := Form.build e.catalog e.config e.nextId rule
  { e with form, nextId := form.nextId e.nextId }

/-- A session with a new form; ids are taken from `next` on. -/
def start (catalog : Catalog) (config : Config) (next : Nat) : Editor :=
  openRule { catalog, config, nextId := next, form := {} } none

/-- Replaces the form by that of the last rule, or of a new one. -/
def reopen (e : Editor) : Editor := e.openRule e.rule

/-- Replaces the form. -/
def setForm (e : Editor) (form : Form) : Editor := { e with form }

/-! ## Rules -/

/-- Saves the form as it is, complete or not. The rule is remembered as the last one. -/
def compileUnchecked (e : Editor) : Editor × Rule :=
  let rule := e.form.toRule e.catalog
  ({ e with rule := some rule }, rule)

/-- Saves the form if it is complete. If it is not, the session stays as it is and the issues are
given. -/
def compile (e : Editor) : Except (List Issue) (Editor × Rule) :=
  match e.form.compile e.catalog with
  | .ok rule => .ok ({ e with rule := some rule }, rule)
  | .error issues => .error issues

/-- Imports a portable document. The rule is remembered as the last one; the form stays as it is
until the rule is opened. -/
def importText (e : Editor) (s : String) : Except Portable.ImportError (Editor × Rule) :=
  match Portable.importText s with
  | .ok rule => .ok ({ e with rule := some rule }, rule)
  | .error err => .error err

/-! ## Conditions -/

/-- Appends a condition. -/
def addCondition (e : Editor) (row : ConditionRow) : Editor :=
  e.setForm { e.form with conditions := e.form.conditions ++ [row] }

/-- Edits the condition at a position. -/
def updateCondition? (e : Editor) (index : Nat) (edit : ConditionRow → ConditionRow) :
    Option Editor :=
  if index < e.form.conditions.length then
    some (e.setForm { e.form with conditions := e.form.conditions.modify index edit })
  else none

/-- Removes the condition at a position. -/
def removeCondition? (e : Editor) (index : Nat) : Option Editor :=
  if index < e.form.conditions.length then
    some (e.setForm { e.form with conditions := e.form.conditions.eraseIdx index })
  else none

/-! ## Actions -/

/-- Appends a row. -/
def appendAction (e : Editor) (row : ActionRow) : Editor :=
  e.setForm { e.form with actions := e.form.actions ++ [row] }

/-- Takes the next id. -/
def takeId (e : Editor) : String × Editor :=
  (ActionRow.idOf e.nextId, { e with nextId := e.nextId + 1 })

/-- Appends a new action of a type, if the catalog knows it. -/
def addAction? (e : Editor) (type : String) : Option Editor :=
  (e.catalog.action? type).map fun a =>
    let (id, e) := e.takeId
    e.appendAction (.ofAction id a)

/-- Appends an action of a type without parameters. -/
def addBareAction (e : Editor) (type : String) : Editor :=
  let (id, e) := e.takeId
  e.appendAction { id, type }

/-- Opens a stored action as a row, without adding it to the form. -/
def openAction (e : Editor) (stored : StoredAction) : ActionRow × Editor :=
  let (id, e) := e.takeId
  (.ofStored id e.catalog stored, e)

/-- Appends a stored action. -/
def addStoredAction (e : Editor) (stored : StoredAction) : Editor :=
  let (row, e) := e.openAction stored
  e.appendAction row

/-- Edits the action at a position. -/
def updateAction? (e : Editor) (index : Nat) (edit : ActionRow → ActionRow) : Option Editor :=
  if index < e.form.actions.length then
    some (e.setForm { e.form with actions := e.form.actions.modify index edit })
  else none

/-- Removes the action at a position. -/
def removeAction? (e : Editor) (index : Nat) : Option Editor :=
  if index < e.form.actions.length then
    some (e.setForm { e.form with actions := e.form.actions.eraseIdx index })
  else none

/-- The action at a position, with what the catalog says of exactly its type. -/
def actionAt? (e : Editor) (index : Nat) : Option (ActionRow × Option Catalog.Action) :=
  e.form.actions[index]?.map fun row => (row, e.catalog.action? row.type)

/-- Edits a parameter of the action at a position. The variants that it controls are switched if the
catalog knows the action; whether it does comes with the result. Otherwise the value is written and
nothing else changes. -/
def setParam? (e : Editor) (index : Nat) (name : String) (value : EditValue) :
    Option (Bool × Editor) :=
  (e.actionAt? index).bind fun
    | (_, some a) => (e.updateAction? index (·.setParam a name value)).map (true, ·)
    | (_, none) =>
      (e.updateAction? index fun row =>
        { row with params := OrderedMap.insert row.params name value }).map (false, ·)

/-- Removes a parameter of the action at a position. The value that it had comes with the
result. -/
def removeParam? (e : Editor) (index : Nat) (name : String) :
    Option (Option EditValue × Editor) :=
  (e.actionAt? index).bind fun (row, _) =>
    let (old, left) := OrderedMap.remove row.params name
    (e.updateAction? index fun row => { row with params := left }).map (old, ·)

/-- Replaces the action at a position by a stored one, which keeps the id of the row. An id is
taken all the same. -/
def reconcileInto? (e : Editor) (index : Nat) (stored : StoredAction) : Option Editor :=
  (e.actionAt? index).bind fun (old, _) =>
    let (row, e) := e.openAction stored
    e.updateAction? index fun _ => { row with id := old.id }

end Editor

end RuleEditor
