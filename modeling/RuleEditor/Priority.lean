import RuleEditor.Json.Lenient

/-!
# Priorities

The priority of a rule is a 64-bit integer. Stores hold it as a number or as text, and a form as the
text that was typed; what is no number counts as zero. A fraction is dropped, and a value out of
range becomes the nearest one in range.

## Main definitions

* `Priority.ofText` — the priority that a text stands for.
* `Priority.ofJson` — the priority that a value stands for.
-/

namespace RuleEditor.Priority

/-- The priority that a text stands for: an integer, or else a number without its fraction. White
space around the text does not count, and a text that is no number has the priority zero, so that
this never fails. -/
def ofText (s : String) : Int64 :=
  let cs := Text.trimChars s.toList
  match Text.int64? cs with
  | some n => n
  | none =>
    match Binary64.ofChars? cs with
    | some x => Int64.ofIntClamp x.truncate
    | none => 0

/-- The priority that a value stands for. Numbers and texts may stand for one; a value of any other
kind has the priority zero. -/
def ofJson : Json → Int64
  | .num n => n.toInt64Clamp
  | .str s => ofText s
  | _ => 0

/-- A priority that is written as a value is read back. It is an integer of the type of priorities,
so that bringing it into range does nothing. -/
@[simp] theorem ofJson_ofInt64 (n : Int64) : ofJson (.ofInt64 n) = n := Int64.ofIntClamp_toInt n

end RuleEditor.Priority
