import RuleEditor.Catalog.Param

/-!
# Parameters of raw catalogs

In a raw catalog the parameters of an action, and those of each variant, are lists whose entries may
be incomplete, repeated or spelled in several ways. Entries that cannot be read are dropped, and of
entries with one name the first counts.

## Main definitions

* `Catalog.Param.ofRaw?` — reads an entry.
* `Catalog.Param.listOfRaw` — the parameters of a raw list.
-/

namespace RuleEditor.Catalog

/-- The kind that a name stands for, in any case and with blanks around it. A name that is not known
stands for text; the kind of variants has no name here, as it shows in the variants themselves. -/
def ParamKind.ofRawName (name : String) : ParamKind :=
  let name := Json.lowerAscii (Text.trim name)
  if name = "number" ∨ name = "float" then .number
  else if name = "integer" ∨ name = "int" then .integer
  else if name = "boolean" ∨ name = "bool" then .boolean
  else if name = "object" ∨ name = "json" then .object
  else if name = "array<string>" ∨ name = "array" ∨ name = "string[]" ∨ name = "list" then
    .stringArray
  else .string

/-- The text of a choice's value: a text as it is, a number or a truth value as in a document.
Values of other kinds make the entry one that cannot be read. -/
def Choice.valueOfRaw? : Json → Option String
  | .str s => some s
  | .num n => some (String.ofList n.text)
  | .bool b => some (if b then "true" else "false")
  | _ => none

/-- Reads a choice: a text, or an object with a value and perhaps a label. Without a label the text
of the value is shown. -/
def Choice.ofRaw? : Json → Option Choice
  | .str s => some ⟨s, s⟩
  | .obj members => do
    let value ← (OrderedMap.get? members "value").bind valueOfRaw?
    return ⟨value, (Json.Object.text? members ["label", "name"]).getD value⟩
  | _ => none

namespace Param

/-- The choices of an entry, under either of two names; the second counts only if the first is
missing. -/
def choicesOfRaw (o : Json.Object) : List Choice :=
  let items := (OrderedMap.get? o "choices").or (OrderedMap.get? o "options")
  ((items.bind Json.arr?).getD []).filterMap Choice.ofRaw?

/-- What an entry with a name declares besides the kind. A default of `null` is none. -/
def infoOfRaw (name : String) (o : Json.Object) : ParamInfo where
  name := name
  label := o.text? ["label"]
  inputHint := o.text? ["inputHint", "input_hint", "input"]
  choices := choicesOfRaw o
  required := o.flag ["required"] false
  hidden := o.flag ["hidden"] false
  readonly := o.flag ["readonly", "read_only", "readOnly"] false
  default := (OrderedMap.get? o "default").filter fun v => !v.isNull

/-- The kind of an entry with these variants; it is that of variants if there are any, whatever kind
the entry names. -/
def kindOfRaw (o : Json.Object) : List Variant → ParamKind
  | [] => ((o.text? ["kind", "type"]).map ParamKind.ofRawName).getD .string
  | variants => .variant ((o.text? ["controller"]).getD defaultController) variants

mutual

/-- Reads an entry. It has to name the parameter; all else has a value to fall back on, so that an
entry with a name is always read. -/
def ofRaw? : Json → Option Param
  | .obj members =>
    (Json.Object.text? members ["name"]).map fun name =>
      ⟨infoOfRaw name members, kindOfRaw members (variantsOfMembers members)⟩
  | _ => none

/-- The variants of the first member that holds them. -/
def variantsOfMembers : List (String × Json) → List Variant
  | [] => []
  | (name, v) :: rest => if name = "variants" then variantsOfRaw v else variantsOfMembers rest

/-- The variants of a raw list. -/
def variantsOfRaw : Json → List Variant
  | .arr items => variantsOfItems items
  | _ => []

/-- The variants of the items that can be read. A variant has to name its discriminator. -/
def variantsOfItems : List Json → List Variant
  | [] => []
  | v :: rest => (variantOfRaw? v).toList ++ variantsOfItems rest

/-- Reads a variant. -/
def variantOfRaw? : Json → Option Variant
  | .obj members =>
    (Json.Object.text? members ["discriminatorValue", "discriminator", "value"]).map
      fun discriminator => ⟨discriminator, paramsOfMembers members⟩
  | _ => none

/-- The parameters of the first member that holds them. -/
def paramsOfMembers : List (String × Json) → List Param
  | [] => []
  | (name, v) :: rest => if name = "params" then listOfRaw v else paramsOfMembers rest

/-- The parameters of a raw list: entries that cannot be read are dropped, and so are entries whose
name came before. -/
def listOfRaw : Json → List Param
  | .arr items => keepFirst (fun p => p.name) (entriesOfItems items)
  | _ => []

/-- The entries of a raw list that can be read. -/
def entriesOfItems : List Json → List Param
  | [] => []
  | v :: rest => (ofRaw? v).toList ++ entriesOfItems rest

end

end Param

end RuleEditor.Catalog
