import RuleEditor.Catalog.Event

/-!
# Operators of a catalog

An operator compares the value at a path with the right side of a condition. The rule engine knows
it by its id; aliases are other spellings that occur in stored rules.

## Main definitions

* `Catalog.Operator` — an operator with its label and aliases.
* `Catalog.Operator.listOfRaw` — the operators of a raw catalog section.
-/

namespace RuleEditor.Catalog

/-- An operator that conditions can use. Two flags say whether a right side is needed and whether it
may be several values. -/
structure Operator where
  /-- The name by which rules refer to the operator. -/
  id : String
  /-- The name to show. -/
  label : String := id
  /-- What the operator does. -/
  description : Option String := none
  /-- Other spellings of the id. -/
  aliases : List String := []
  /-- Whether a condition needs a right side. -/
  valueRequired : Bool := true
  /-- Whether the right side may be several values. -/
  multiValue : Bool := false
deriving DecidableEq, Repr, Inhabited

namespace Operator

/-- The form of the record in text. -/
def shape : Json.Shape :=
  .ofNames ["id", "label", "description", "aliases", "value_required", "multi_value"]

/-- Reads the record of an operator. -/
def ofJson? (v : Json) : Option Operator := do
  let o ← Json.fields? shape.names v
  let id ← o.required Json.str? "id"
  let label ← o.required Json.str? "label"
  let description ← o.optional Json.str? "description"
  let aliases ← o.orElse (Json.listOf? Json.str?) [] "aliases"
  let valueRequired ← o.required Json.bool? "value_required"
  let multiValue ← o.required Json.bool? "multi_value"
  return { id, label, description, aliases, valueRequired, multiValue }

/-- Writes the record of an operator. -/
def toJson (op : Operator) : Json :=
  .obj ([("id", .str op.id), ("label", .str op.label)]
    ++ Json.memberIf "description" (op.description.map .str)
    ++ Json.listIf "aliases" (op.aliases.map .str)
    ++ [("value_required", .bool op.valueRequired), ("multi_value", .bool op.multiValue)])

/-- The aliases that a raw value gives: a list of texts, or one text. Blank ones do not count, and
items that are no texts are passed over. -/
def aliasesOfRaw : Option Json → List String
  | some (.arr items) => items.filterMap fun item => item.str?.bind Text.nonBlank?
  | some (.str text) => (Text.nonBlank? text).toList
  | _ => []

/-- Reads an entry of a raw catalog. It has to name its id, under one of three names; the id also
serves as the label of an entry without one. -/
def ofRaw? (v : Json) : Option Operator := do
  let o ← v.obj?
  let id ← o.text? ["operator", "value", "op"]
  return {
    id
    label := (o.text? ["label", "name"]).getD id
    description := o.text? ["description"]
    aliases := aliasesOfRaw (OrderedMap.get? o "aliases")
    valueRequired := o.flag ["value_required", "valueRequired", "requiresValue"] true
    multiValue := o.flag ["multi_value", "multiValue"] false }

/-- The operators of a raw catalog section: entries that cannot be read are dropped, and so are
entries whose id came before. Aliases are not compared. -/
def listOfRaw (v : Json) : List Operator :=
  keepFirst Operator.id ((v.arr?.getD []).filterMap ofRaw?)

end Operator

end RuleEditor.Catalog
