import RuleEditor.Expression.Basic
import RuleEditor.Form.EditText
import RuleEditor.Json.Record

/-!
# Conditions in forms

A form shows each condition as a row: a path, an operator, and either a text with the type of value
that it stands for or the path of another value.

## Main definitions

* `ValueType` — the types of values in a row.
* `ValueType.read` — the value that a text stands for.
* `ConditionRow` — a row.
* `ConditionRow.ofCondition`, `ConditionRow.toCondition` — the row of a condition, and back.
-/

namespace RuleEditor

/-- The types of values in a condition row. A row remembers the type, since the text alone does not
say whether `5` is a number or a text. -/
inductive ValueType where
  /-- A text. -/
  | string
  /-- A number. -/
  | number
  /-- A truth value. -/
  | boolean
deriving DecidableEq, Repr, Inhabited

namespace ValueType

/-- The name of a type. -/
def name : ValueType → String
  | .string => "string"
  | .number => "number"
  | .boolean => "boolean"

/-- The type of a name. -/
def ofName? (s : String) : Option ValueType :=
  if s = "string" then some .string
  else if s = "number" then some .number
  else if s = "boolean" then some .boolean
  else none

/-- The type of a value. What is neither a number nor a truth value is edited as text, also lists
and objects, which become texts when the row is saved. -/
def ofJson : Json → ValueType
  | .num _ => .number
  | .bool _ => .boolean
  | _ => .string

/-- The type of a value that may be missing. -/
def ofJson? (v : Option Json) : ValueType := (v.map ofJson).getD .string

/-- The number that a trimmed text stands for: an integer of 64 bits, or else a floating-point
number, as an integer if it has no fraction. Integers are tried first, so that large ones are not
rounded. -/
def number? (cs : List Char) : Option Json.Number :=
  match Text.int64? cs with
  | some n => some (.ofInt64 n)
  | none => (Binary64.ofChars? cs).map .ofBinary64

/-- The value that a text stands for. A text that is no number stays a text even in a row of
numbers, and every text but `true` stands for the truth value false. -/
def read (t : ValueType) (s : String) : Json :=
  match t with
  | .string => .str s
  | .boolean => .bool (s = "true")
  | .number =>
    match number? (Text.trimChars s.toList) with
    | some n => .num n
    | none => .str s

end ValueType

/-- A condition in a form. The right side is a text with a type, or a path; both boxes may be filled
in, and then the path counts. -/
structure ConditionRow where
  /-- The path of the left side. -/
  path : String := ""
  /-- The operator. -/
  operator : String := ""
  /-- The text of the right side. -/
  value : String := ""
  /-- The type of value that the text stands for. -/
  valueType : ValueType := .string
  /-- The path of the right side; unless it is blank, the text does not count. -/
  comparePath : Option String := none
deriving DecidableEq, Repr, Inhabited

namespace ConditionRow

/-- The path of the right side, trimmed, unless it is blank. A blank path is as good as none, and
then the text counts. -/
def referencedPath? (r : ConditionRow) : Option String := r.comparePath.bind Text.nonBlank?

/-! ## Conditions and rows -/

/-- The row of a condition. One of the two boxes is filled in, as the right side is a path or a
literal, and neither if there is no right side. -/
def ofCondition (c : Condition) : ConditionRow :=
  match c.right with
  | none => { path := c.path, operator := c.op }
  | some (.path p) => { path := c.path, operator := c.op, comparePath := some p }
  | some (.literal v) =>
    { path := c.path, operator := c.op, value := v.editText, valueType := .ofJson v }

/-- The right side that a row stands for; there always is one. -/
def operand (r : ConditionRow) : Operand :=
  match r.referencedPath? with
  | some p => .path p
  | none => .literal (r.valueType.read r.value)

/-- The condition that a row stands for. The path is trimmed, the operator is not. -/
def toCondition (r : ConditionRow) : Condition where
  op := r.operator
  path := Text.trim r.path
  right := some r.operand

/-! ## Records -/

/-- The form of the record in text. -/
def shape : Json.Shape :=
  .record
    [("path", .any), ("operator", .any), ("value", .any), ("value_type", .word),
      ("compare_path", .any)]

/-- Reads the record of a row. -/
def ofJson? (v : Json) : Option ConditionRow := do
  let o ← Json.fields? shape.names v
  let path ← o.orElse Json.str? "" "path"
  let operator ← o.orElse Json.str? "" "operator"
  let value ← o.orElse Json.str? "" "value"
  let valueType ← o.orElse (fun v => (Json.word? v).bind ValueType.ofName?) .string "value_type"
  let comparePath ← o.optional Json.str? "compare_path"
  return { path, operator, value, valueType, comparePath }

/-- Writes the record of a row. -/
def toJson (r : ConditionRow) : Json :=
  .obj ([("path", .str r.path), ("operator", .str r.operator), ("value", .str r.value),
      ("value_type", .str r.valueType.name)]
    ++ Json.memberIf "compare_path" (r.comparePath.map .str))

end ConditionRow

end RuleEditor
