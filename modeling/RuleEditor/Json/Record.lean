import RuleEditor.Json.Shape

/-!
# Reading records

A record is read from an object by the names of its members, or from a list by their order. Members
with other names are ignored. Readers of members are functions to `Option`, where none means that
the value is not of the form required.

## Main definitions

* `Json.fields?` — the members of a record.
* `Json.Object.required`, `Json.Object.optional`, `Json.Object.orElse` — read one member that must
  be there, that may be missing or `null`, and that has a default.
* `Json.listOf?` — reads the items of a list.
* `Json.word?` — reads one of a few words.
-/

namespace RuleEditor.Json

/-- The members of a record with the given names: those of an object, or the items of a list with
the names in order. A list may stop early, but may not be longer than the record; the members behind
its end are missing. -/
def fields? (names : List String) : Json → Option Object
  | .obj members => some members
  | .arr items => if items.length ≤ names.length then some (names.zip items) else none
  | _ => none

namespace Object

/-- Reads a member that must be there. The record cannot be read if the member is missing or is not
of the form required. -/
def required {α : Type} (read : Json → Option α) (o : Object) (name : String) : Option α :=
  (OrderedMap.get? o name).bind read

/-- Reads a member that may be missing or `null`, which come to the same. Any other value has to be
of the form required. -/
def optional {α : Type} (read : Json → Option α) (o : Object) (name : String) :
    Option (Option α) :=
  match OrderedMap.get? o name with
  | none | some .null => some none
  | some v => (read v).map some

/-- Reads a member that has a default if it is missing; `null` is a value like any other. -/
def orElse {α : Type} (read : Json → Option α) (default : α) (o : Object) (name : String) :
    Option α :=
  match OrderedMap.get? o name with
  | none => some default
  | some v => read v

/-- Reads a member that has a default if it is missing or `null`. -/
def orElseNull {α : Type} (read : Json → Option α) (default : α) (o : Object) (name : String) :
    Option α :=
  match OrderedMap.get? o name with
  | none | some .null => some default
  | some v => read v

end Object

/-- Reads each item of a list. One item that cannot be read makes the whole list one that cannot be.
-/
def listOf? {α : Type} (read : Json → Option α) (v : Json) : Option (List α) :=
  v.arr?.bind fun items => items.mapM read

/-- The word that a value gives: a text, or the only name of an object with the value `null`, which
is another way to write a choice without further data. -/
def word? : Json → Option String
  | .str s => some s
  | .obj [(name, .null)] => some name
  | _ => none

/-- A member that is written only if there is a value. -/
def memberIf (name : String) : Option Json → List (String × Json)
  | none => []
  | some v => [(name, v)]

/-- A member that is written only if it is set. -/
def flagIf (name : String) (flag : Bool) : List (String × Json) :=
  if flag then [(name, .bool true)] else []

/-- A member that is written only if the list has items. -/
def listIf (name : String) (items : List Json) : List (String × Json) :=
  match items with
  | [] => []
  | items => [(name, .arr items)]

end RuleEditor.Json
