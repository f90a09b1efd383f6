import RuleEditor.Json.Printer
import RuleEditor.Text.Blank

/-!
# Values as they are edited

In a form most values are edited as text. Lists are edited as one line with commas between the
items.

## Main definitions

* `Json.editText` — the text of a value in a form.
* `CommaList.join`, `CommaList.split` — a list of values as one line, and the items of a line.
-/

namespace RuleEditor

/-- The text of a truth value. -/
def boolText (b : Bool) : String := if b then "true" else "false"

/-- The text of a value in a form: texts are bare, `null` is empty, numbers without fraction look
like integers, and lists and objects are compact JSON. -/
def Json.editText : Json → String
  | .null => ""
  | .bool b => boolText b
  | .num n => String.ofList n.display
  | .str s => s
  | v => v.compact

namespace CommaList

/-- A list of values as one line, each in the text in which it is edited. What kind of value an item
was does not show in the line. -/
def join (items : List Json) : String := String.intercalate ", " (items.map Json.editText)

/-- The parts of a text between commas; there is always at least one. -/
def cut : List Char → List (List Char)
  | [] => [[]]
  | c :: rest =>
    if c = ',' then [] :: cut rest
    else
      match cut rest with
      | part :: parts => (c :: part) :: parts
      | [] => [[c]]

/-- The items of a line: its parts between commas, trimmed, without those that are blank. There is
no way to write a comma within an item. -/
def items (line : String) : List String :=
  (((cut line.toList).map Text.trimChars).filter fun part => part ≠ []).map String.ofList

/-- The items of a line as values, which are texts throughout: the line does not say what else an
item may have been. -/
def split (line : String) : List Json := (items line).map .str

end CommaList

end RuleEditor
