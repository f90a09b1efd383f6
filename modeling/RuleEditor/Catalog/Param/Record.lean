import RuleEditor.Catalog.Param

/-!
# Records of parameters

The record of a parameter is an object that holds the members of the declaration and those of its
kind side by side. Unlike other records it cannot be given as a list.

## Main definitions

* `Catalog.Param.toJson`, `Catalog.Param.ofJson?` — writes and reads the record of a parameter.
* `Catalog.Param.shape` — the form of the record in text.
-/

namespace RuleEditor.Catalog

namespace Choice

/-- The form of the record in text. -/
def shape : Json.Shape := .ofNames ["value", "label"]

/-- Reads the record of a choice. -/
def ofJson? (v : Json) : Option Choice := do
  let o ← Json.fields? shape.names v
  let value ← o.required Json.str? "value"
  let label ← o.required Json.str? "label"
  return { value, label }

/-- Writes the record of a choice. -/
def toJson (c : Choice) : Json := .obj [("value", .str c.value), ("label", .str c.label)]

end Choice

namespace Param

/-! ## Writing -/

/-- The members of a declaration that stand before those of the kind. -/
def leadingMembers (info : ParamInfo) : List (String × Json) :=
  ("name", .str info.name) :: Json.memberIf "label" (info.label.map .str)

/-- The members of a declaration that stand behind those of the kind. -/
def trailingMembers (info : ParamInfo) : List (String × Json) :=
  Json.memberIf "input_hint" (info.inputHint.map .str)
    ++ Json.listIf "choices" (info.choices.map Choice.toJson)
    ++ [("required", .bool info.required), ("hidden", .bool info.hidden),
      ("readonly", .bool info.readonly)]
    ++ Json.memberIf "default" info.default

mutual

/-- Writes the record of a parameter. The members of the kind stand among those of the declaration
and not in an object of their own. -/
def toJson : Param → Json
  | ⟨info, kind⟩ => .obj (leadingMembers info ++ kindMembers kind ++ trailingMembers info)

/-- The members that tell the kind. -/
def kindMembers : ParamKind → List (String × Json)
  | .variant controller variants =>
    [("kind", .str "variant"), ("controller", .str controller),
      ("variants", .arr (variantsToJson variants))]
  | kind => [("kind", .str kind.name)]

/-- Writes the record of a variant. -/
def variantToJson : Variant → Json
  | ⟨discriminator, params⟩ =>
    .obj [("discriminator", .str discriminator), ("params", .arr (listToJson params))]

/-- Writes the records of variants. -/
def variantsToJson : List Variant → List Json
  | [] => []
  | v :: rest => variantToJson v :: variantsToJson rest

/-- Writes the records of parameters. -/
def listToJson : List Param → List Json
  | [] => []
  | p :: rest => toJson p :: listToJson rest

end

/-! ## Reading -/

/-- The names of the kinds, in an order by which a kind may also be given as a number. -/
def kindNames : List String :=
  ["string", "number", "integer", "boolean", "object", "array<string>", "variant"]

/-- The name of the kind that a value gives: one of the known names, or the number of one in their
order. -/
def kindName? : Json → Option String
  | .str s => if s ∈ kindNames then some s else none
  | .num (.int n) => if 0 ≤ n.val then kindNames[n.val.toNat]? else none
  | _ => none

/-- The kind of a name that stands alone, which is each but that of variants. -/
def plainKind? : String → Option ParamKind
  | "string" => some .string
  | "number" => some .number
  | "integer" => some .integer
  | "boolean" => some .boolean
  | "object" => some .object
  | "array<string>" => some .stringArray
  | _ => none

/-- Reads the members of a declaration other than those of the kind. -/
def infoOfMembers? (o : Json.Object) : Option ParamInfo := do
  let name ← o.required Json.str? "name"
  let label ← o.optional Json.str? "label"
  let inputHint ← o.optional Json.str? "input_hint"
  let choices ← o.orElse (Json.listOf? Choice.ofJson?) [] "choices"
  let required ← o.orElse Json.bool? false "required"
  let hidden ← o.orElse Json.bool? false "hidden"
  let readonly ← o.orElse Json.bool? false "readonly"
  let default ← o.optional some "default"
  return { name, label, inputHint, choices, required, hidden, readonly, default }

mutual

/-- Reads the record of a parameter. The controller and the variants are asked for only if the kind
is that of variants; otherwise members of these names are ignored. -/
def ofJson? : Json → Option Param
  | .obj members => do
    let info ← infoOfMembers? members
    let kindName ← Json.Object.required kindName? members "kind"
    match plainKind? kindName with
    | some kind => return ⟨info, kind⟩
    | none =>
      let controller ← Json.Object.required Json.str? members "controller"
      let variants ← variantsOfMembers? members
      return ⟨info, .variant controller variants⟩
  | _ => none

/-- Reads the variants of the first member that holds them. -/
def variantsOfMembers? : List (String × Json) → Option (List Variant)
  | [] => none
  | (name, v) :: rest => if name = "variants" then variantsOfJson? v else variantsOfMembers? rest

/-- Reads a list of variants. -/
def variantsOfJson? : Json → Option (List Variant)
  | .arr items => variantsOfItems? items
  | _ => none

/-- Reads each of a list of variants. -/
def variantsOfItems? : List Json → Option (List Variant)
  | [] => some []
  | v :: rest => do
    let variant ← variantOfJson? v
    let rest ← variantsOfItems? rest
    return variant :: rest

/-- Reads the record of a variant; a missing list of parameters is empty. -/
def variantOfJson? : Json → Option Variant
  | .obj members => do
    let discriminator ← Json.Object.required Json.str? members "discriminator"
    let params ← paramsOfMembers? members
    return ⟨discriminator, params⟩
  | .arr [.str discriminator] => some ⟨discriminator, []⟩
  | .arr [.str discriminator, v] => (listOfJson? v).map (⟨discriminator, ·⟩)
  | _ => none

/-- Reads the parameters of the first member that holds them; without one there are none. -/
def paramsOfMembers? : List (String × Json) → Option (List Param)
  | [] => some []
  | (name, v) :: rest => if name = "params" then listOfJson? v else paramsOfMembers? rest

/-- Reads a list of parameters. -/
def listOfJson? : Json → Option (List Param)
  | .arr items => listOfItems? items
  | _ => none

/-- Reads each of a list of parameters. -/
def listOfItems? : List Json → Option (List Param)
  | [] => some []
  | v :: rest => do
    let p ← ofJson? v
    let rest ← listOfItems? rest
    return p :: rest

end

/-- Whether a value names the kind of variants. -/
def namesVariants (v : Json) : Bool := kindName? v = some "variant"

/-- The form of the record in text, given that of its choices and the additional fields of the kind
of variants. The members of the kind are sorted out of those that the declaration leaves over, so
all of these have to be values. -/
def shapeWith (choice : Json.Shape) (variantFields : List (String × Json.Shape)) : Json.Shape :=
  .taggedRecord
    [("name", .any), ("label", .any), ("kind", .any), ("input_hint", .any),
      ("choices", .list choice), ("required", .any), ("hidden", .any), ("readonly", .any),
      ("default", .any)]
    "kind" namesVariants variantFields

/-- The fields of the kind of variants, with variants nested at most `depth` deep. What stands in a
variant has been left over by the declaration around it, so no member there is passed over. -/
def variantFields : Nat → List (String × Json.Shape)
  | 0 => []
  | depth + 1 =>
    [("controller", .any),
      ("variants", .list (.openRecord
        [("discriminator", .any),
          ("params", .list
            (shapeWith (.openRecord [("value", .any), ("label", .any)]) (variantFields depth)))]))]

/-- The form of the record in text. A variant lies four levels of nesting below the one around it,
so the limit on nesting is reached before that of the variants. -/
def shape : Json.Shape := shapeWith Choice.shape (variantFields 32)

end Param

end RuleEditor.Catalog
