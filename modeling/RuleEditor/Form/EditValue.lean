import RuleEditor.Form.EditText
import RuleEditor.Json.Lenient

/-!
# Parameters in forms

A parameter of an action is edited as a text, as a switch or as an object.

## Main definitions

* `EditValue` — a value as it is edited.
* `EditValue.ofStored` — the value of a stored one, where nothing is known of the parameter.
* `Params` — the parameters of an action in a form.
-/

namespace RuleEditor

/-- The value of a parameter as it is edited. Which of the three it is follows from the stored value
or from the kind of the parameter, and may change with an edit. -/
inductive EditValue where
  /-- A text, be it of a list, a number or a text. -/
  | text (s : String)
  /-- A switch. -/
  | flag (b : Bool)
  /-- An object. -/
  | object (o : Json.Object)
deriving Inhabited

namespace EditValue

/-- The edited form of a stored value: truth values and objects are themselves, the items of a list
are joined by commas, and all else is a text. -/
def ofStored : Json → EditValue
  | .bool b => .flag b
  | .obj members => .object members
  | .arr items => .text (CommaList.join items)
  | v => .text v.editText

/-- The text that a value is, if it is one. -/
def text? : EditValue → Option String
  | .text s => some s
  | _ => none

/-- The text of a value, which is also what selects a variant. An object has its compact JSON for a
text. -/
def toText : EditValue → String
  | .text s => s
  | .flag b => boolText b
  | .object o => (Json.obj o).compact

/-- The truth value of a value; the only text that is true is `true`, and an object is false. -/
def toBool : EditValue → Bool
  | .text s => Json.strictBool (.str s)
  | .flag b => b
  | .object _ => false

/-- Writes a value. -/
def toJson : EditValue → Json
  | .text s => .str s
  | .flag b => .bool b
  | .object o => .obj o

/-- Equality, with objects compared as values. -/
def same : EditValue → EditValue → Bool
  | .text s, .text t => s == t
  | .flag a, .flag b => a == b
  | .object a, .object b => Json.Object.same a b
  | _, _ => false

end EditValue

/-- The parameters of an action in a form, in the order in which they came in. They may hold more
than the declared parameters, and more than the active ones. -/
abbrev Params := OrderedMap EditValue

namespace Params

/-- The text of a parameter's value, if it has one. It is what variants are selected by. -/
def textOf (m : Params) (name : String) : Option String :=
  (OrderedMap.get? m name).map EditValue.toText

/-- Reads the parameters of an object, where nothing is known of the action. A name that is repeated
counts by its last value. -/
def ofMembers (o : Json.Object) : Params :=
  OrderedMap.ofList (o.map fun (name, v) => (name, EditValue.ofStored v))

/-- Reads parameters. -/
def ofJson? (v : Json) : Option Params := v.obj?.map ofMembers

/-- Writes parameters. -/
def toJson (m : Params) : Json := .obj (m.map fun (name, v) => (name, v.toJson))

/-- Equality entry by entry, with objects compared as values. The order of the entries counts, as it
does for the person who sees them. -/
def same (a b : Params) : Bool :=
  a.length == b.length && (a.zip b).all fun (x, y) => x.1 == y.1 && x.2.same y.2

end Params

end RuleEditor
