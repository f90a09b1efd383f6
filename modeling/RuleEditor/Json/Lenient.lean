import RuleEditor.Json.Basic
import RuleEditor.Text.Blank

/-!
# Lenient reading of members

Catalogs are written by many hands. Their readers look for a value under several names, take the
first that is of use, and pass over the others.

## Main definitions

* `Json.Object.text?` — the first text that is not blank, trimmed.
* `Json.looseBool?` — the truth value that a value stands for.
* `Json.Object.flag` — the first truth value, or a default.
-/

namespace RuleEditor.Json

/-- A text in lower case, as far as ASCII letters go. -/
def lowerAscii (s : String) : String := String.ofList (s.toList.map Char.toLower)

/-- The first text under the given names that is not blank, trimmed. Values of other kinds and blank
texts are passed over, also if they stand under the first name. -/
def Object.text? (o : Object) (names : List String) : Option String :=
  names.findSome? fun name =>
    ((OrderedMap.get? o name).bind Json.str?).bind Text.nonBlank?

/-- The truth value that a value stands for: itself, a number other than zero, or one of a few words
in any case. Other values stand for none, so that the next name is looked under. -/
def looseBool? : Json → Option Bool
  | .bool b => some b
  | .num n => some n.isNonzero
  | .str s =>
    let word := lowerAscii (Text.trim s)
    if word = "true" ∨ word = "1" ∨ word = "yes" then some true
    else if word = "false" ∨ word = "0" ∨ word = "no" then some false
    else none
  | _ => none

/-- The first truth value under the given names, or the default. -/
def Object.flag (o : Object) (names : List String) (default : Bool) : Bool :=
  (names.findSome? fun name => (OrderedMap.get? o name).bind looseBool?).getD default

/-- Whether a value counts as true in a form: the truth value itself, or exactly the text `true`. -/
def strictBool : Json → Bool
  | .bool b => b
  | .str s => s = "true"
  | _ => false

end RuleEditor.Json
