import RuleEditor.Form.EditValue
import RuleEditor.Json.Record

/-!
# Actions in forms

A form shows each action of a rule as a row with the parameters as they are edited. Rows are told
apart by an id, which is no part of the rule. Rows that come without an id get the next one of a
counter; every reader of rows takes the counter and gives it back.

## Main definitions

* `ActionRow` — a row.
* `ActionRow.idOf` — the id that a number of the counter gives.
* `ActionRow.ofJson?`, `ActionRow.listOfItems`, `ActionRow.toJson` — reads and writes the records of
  rows.
-/

namespace RuleEditor

/-- An action in a form. An impaired row is one whose type was not in the catalog when the row was
made; it keeps the stored parameters, so that values which nobody edits are written back as they
were. -/
structure ActionRow where
  /-- What tells the row from others. -/
  id : String
  /-- The type of the action. -/
  type : String
  /-- The parameters. -/
  params : Params := []
  /-- Whether the type was not in the catalog when the row was made. -/
  impaired : Bool := false
  /-- The stored parameters of an impaired row. -/
  retained : Option Json.Object := none
deriving Inhabited

namespace ActionRow

/-- The id that a number of the counter gives. Different numbers give different ids. -/
def idOf (n : Nat) : String := "action-" ++ String.ofList (Text.ofNat n)

/-- The form of the record in text. -/
def shape : Json.Shape := .ofNames ["id", "type", "params", "impaired", "retained"]

/-- Reads the record of a row. A row without an id takes one from the counter `next`; a row with an
id keeps it, whatever it is, and leaves the counter alone. -/
def ofJson? (v : Json) (next : Nat) : Option (ActionRow × Nat) := do
  let o ← Json.fields? shape.names v
  let id ← o.orElse (fun v => v.str?.map some) none "id"
  let type ← o.orElse Json.str? "" "type"
  let params ← o.orElse Params.ofJson? [] "params"
  let impaired ← o.orElse Json.bool? false "impaired"
  let retained ← o.optional Json.obj? "retained"
  match id with
  | some id => return ({ id, type, params, impaired, retained }, next)
  | none => return ({ id := idOf next, type, params, impaired, retained }, next + 1)

/-- Reads a list of rows, one after the other. If one cannot be read, the ids that the rows before
it took stay taken. -/
def listOfItems : List Json → Nat → Option (List ActionRow) × Nat
  | [], next => (some [], next)
  | v :: rest, next =>
    match ofJson? v next with
    | none => (none, next)
    | some (row, next) =>
      let (rows, next) := listOfItems rest next
      (rows.map (row :: ·), next)

/-- Writes the record of a row. The id is always written, so that a row that is read back keeps it.
-/
def toJson (r : ActionRow) : Json :=
  .obj ([("id", .str r.id), ("type", .str r.type), ("params", r.params.toJson)]
    ++ Json.flagIf "impaired" r.impaired
    ++ Json.memberIf "retained" (r.retained.map .obj))

/-- Equality apart from the id, with values compared as such. -/
def sameContent (a b : ActionRow) : Bool :=
  a.type == b.type && a.params.same b.params && a.impaired == b.impaired &&
    match a.retained, b.retained with
    | none, none => true
    | some x, some y => x.same y
    | _, _ => false

/-- Equality, with values compared as such. -/
def same (a b : ActionRow) : Bool := a.id == b.id && a.sameContent b

end ActionRow

end RuleEditor
