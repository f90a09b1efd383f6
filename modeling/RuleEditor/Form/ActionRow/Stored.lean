import RuleEditor.Form.ActionRow.Seeding
import RuleEditor.Json.Raw
import RuleEditor.Rule

/-!
# Stored actions and rows

A stored action is opened as a row: defaults where it holds no value, and its own values in the form
in which they are edited. An action whose type the catalog does not know is opened as an impaired
row, which keeps the stored values beside the edited ones. Saving a row writes the active
parameters only, each in the form that its kind asks for; an impaired row writes all of them, and a
value that was not edited exactly as it was stored.

## Main definitions

* `Catalog.Param.editForm` — a stored value as it is edited.
* `ActionRow.ofStored` — the row of a stored action.
* `Catalog.Param.storedForm?` — an edited value as it is stored.
* `ActionRow.toStored` — the stored action of a row.
-/

namespace RuleEditor

/-! ## Opening -/

/-- A stored value of a declared parameter as it is edited. A switch is on for true and for the text
of it, a list becomes a line whatever the kind, and an object stays one under the kind of objects
only. -/
def Catalog.Param.editForm (p : Catalog.Param) (v : Json) : EditValue :=
  match p.kind, v with
  | .boolean, v => .flag v.strictBool
  | _, .arr items => .text (CommaList.join items)
  | .object, .obj members => .object members
  | _, v => .text v.editText

namespace ActionRow

/-- The edited form of a stored value; what is not declared at all is edited by its own form. -/
def editFormOf (a : Catalog.Action) (name : String) (v : Json) : EditValue :=
  match a.findParam? name with
  | some p => p.editForm v
  | none => .ofStored v

/-- The row of a stored action of a known type. The stored values are laid over the defaults at the
top, and the variants selected in the end are filled up. -/
def ofKnown (id : String) (a : Catalog.Action) (stored : Json.Object) : ActionRow :=
  let edited := stored.map fun (name, v) => (name, editFormOf a name v)
  { id
    type := a.type
    params :=
      Params.seedVariants a.params
        (OrderedMap.insertMany (Params.seedDefaults a.params []) edited) }

/-- The row of a stored action whose type is not known. -/
def ofUnknown (id : String) (stored : StoredAction) : ActionRow where
  id := id
  type := stored.type
  params := Params.ofMembers stored.params
  impaired := true
  retained := some stored.params

/-- The row of a stored action. If the catalog knows the type, the row is made by its declarations,
and otherwise by the stored values alone. -/
def ofStored (id : String) (catalog : Catalog) (stored : StoredAction) : ActionRow :=
  match catalog.action? stored.type with
  | some a => ofKnown id a stored.params
  | none => ofUnknown id stored

end ActionRow

/-! ## Saving -/

/-- A list without items is no value. -/
def Json.nonEmptyList : List Json → Option Json
  | [] => none
  | items => some (.arr items)

/-- An object without members is no value. -/
def Json.nonEmptyObject : Json.Object → Option Json
  | [] => none
  | members => some (.obj members)

namespace Catalog.ParamKind

/-- The value that a trimmed text that is not blank spells out under a kind, if it does. A number is
an integer if it has no fraction and is at most `2 ^ 53` in magnitude. Texts, truth values and lists
have no such reading. -/
def parse? (kind : ParamKind) (s : String) : Option Json :=
  match kind with
  | .number => (Binary64.ofText? s).map fun x => .num (.ofBinary64 x)
  | .integer =>
    match Text.int64? s.toList with
    | some n => some (.ofInt64 n)
    | none => (Binary64.ofText? s).bind fun x => x.exactInt?.map .ofInt64
  | .object => (Json.parse? s).filter Json.isObj
  | _ => none

/-- A text as it is stored under a kind; none if it is blank. A text that does not spell out a value
of the kind is stored as it is, trimmed, so that nothing that was typed is lost. -/
def storedText? (kind : ParamKind) (s : String) : Option Json :=
  match kind with
  | .stringArray => Json.nonEmptyList (CommaList.split s)
  | kind => (Text.nonBlank? s).map fun s => (kind.parse? s).getD (.str s)

/-- What is stored for a parameter of a kind that has to be there and has no value: the empty value
of the kind, and the empty text for numbers. -/
def emptyValue : ParamKind → Json
  | .stringArray => .arr []
  | .object => .obj []
  | .boolean => .bool false
  | _ => .str ""

end Catalog.ParamKind

/-- An edited value as it is stored; none if it is empty. A switch always has a value, and is off if
it is missing. Where the edited value is not of the sort that the kind asks for, it is stored as
what it is. -/
def Catalog.Param.storedForm? (p : Catalog.Param) (value : Option EditValue) : Option Json :=
  match p.kind with
  | .boolean => some (.bool ((value.map EditValue.toBool).getD false))
  | kind =>
    value.bind fun
      | .object members =>
        match kind with
        | .object => Json.nonEmptyObject members
        | _ => some (.obj members)
      | .flag b => some (.str (boolText b))
      | .text s => kind.storedText? s

/-- An edited value as it is stored where nothing is known of the parameter; none if it is a blank
text. -/
def EditValue.storedForm? : EditValue → Option Json
  | .flag b => some (.bool b)
  | .object members => some (.obj members)
  | .text s => (Text.nonBlank? s).map .str

namespace ActionRow

/-- What is stored for a parameter of a known action: nothing if the value is empty, unless the
parameter is required. -/
def storedParam? (m : Params) (p : Catalog.Param) : Option Json :=
  match p.storedForm? (OrderedMap.get? m p.name) with
  | some v => some v
  | none => if p.required then some p.kind.emptyValue else none

/-- What is stored for a parameter of an action that is not known: the retained value, if the edited
one still is its edited form. -/
def storedUnknown? (retained : Option Json.Object) (name : String) (value : EditValue) :
    Option Json :=
  let raw := retained.bind fun members => OrderedMap.get? members name
  match raw.filter fun v => (EditValue.ofStored v).same value with
  | some v => some v
  | none => value.storedForm?

/-- The stored parameters of a row of a known action, in the order in which the active parameters
are declared. Values of inactive and undeclared parameters are left out. -/
def storedKnown (a : Catalog.Action) (m : Params) : Json.Object :=
  OrderedMap.ofList ((a.active m).filterMap fun p => (storedParam? m p).map (p.name, ·))

/-- The stored action of a row. Its type is looked up without the white space around it, and it is
the catalog at the time of saving that counts, not the one with which the row was made. -/
def toStored (catalog : Catalog) (r : ActionRow) : StoredAction :=
  let type := Text.trim r.type
  match catalog.action? type with
  | some a => { type, params := storedKnown a r.params }
  | none =>
    { type
      params := OrderedMap.ofList (r.params.filterMap fun (name, value) =>
        (storedUnknown? r.retained name value).map (name, ·)) }

end ActionRow

end RuleEditor
