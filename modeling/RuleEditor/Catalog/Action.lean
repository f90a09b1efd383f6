import RuleEditor.Catalog.Param.Raw
import RuleEditor.Catalog.Param.Record

/-!
# Actions of a catalog

An action is what a rule does when it fires.

## Main definitions

* `Catalog.Action` — an action with its parameters.
* `Catalog.Action.listOfRaw` — the actions of a raw catalog section.
-/

namespace RuleEditor.Catalog

/-- An action that rules can take. The parameters are a forest, by way of their variants; those in
the list here are called the parameters at the top. -/
structure Action where
  /-- The name by which rules refer to the action. -/
  type : String
  /-- The name to show. -/
  label : String := type
  /-- What the action does. -/
  description : Option String := none
  /-- The parameters, in the order in which they are to be shown. -/
  params : List Param := []
deriving Inhabited

namespace Action

/-- The form of the record in text. -/
def shape : Json.Shape :=
  .record [("type", .any), ("label", .any), ("description", .any), ("params", .list Param.shape)]

/-- Reads the record of an action, as a catalog is sent along with a form. Unlike a raw entry it has
to be complete. -/
def ofJson? (v : Json) : Option Action := do
  let o ← Json.fields? shape.names v
  let type ← o.required Json.str? "type"
  let label ← o.required Json.str? "label"
  let description ← o.optional Json.str? "description"
  let params ← o.orElse Param.listOfJson? [] "params"
  return { type, label, description, params }

/-- Writes the record of an action. -/
def toJson (a : Action) : Json :=
  .obj ([("type", .str a.type), ("label", .str a.label)]
    ++ Json.memberIf "description" (a.description.map .str)
    ++ Json.listIf "params" (Param.listToJson a.params))

/-- Reads an entry of a raw catalog. It has to name its type; the type also serves as the label of
an entry without one. Everything else has a value to fall back on. -/
def ofRaw? (v : Json) : Option Action := do
  let o ← v.obj?
  let type ← o.text? ["type"]
  return {
    type
    label := (o.text? ["label", "name"]).getD type
    description := o.text? ["description"]
    params := Param.paramsOfMembers o }

/-- The actions of a raw catalog section: entries that cannot be read are dropped, and so are
entries whose type came before. A section that is no list is empty. -/
def listOfRaw (v : Json) : List Action :=
  keepFirst Action.type ((v.arr?.getD []).filterMap ofRaw?)

/-- The first declaration of a name among the parameters and their variants, depth first. It does
not ask which variants are active. -/
def findParam? (a : Action) (name : String) : Option Param := Param.findInList? name a.params

/-- The parameters at the top whose variants a name controls. Parameters within variants may name
controllers too; they are not found here. -/
def controlledBy (a : Action) (name : String) : List Param :=
  a.params.filter fun p => p.kind.controller? = some name

end Action

end RuleEditor.Catalog
