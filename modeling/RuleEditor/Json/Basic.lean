import RuleEditor.Json.Number
import RuleEditor.OrderedMap

/-!
# JSON values

The values of JSON, with objects as maps in insertion order.

## Main definitions

* `Json` — the values.
* `Json.same` — equality as values: the members of objects may stand in any order.
* `Json.WellFormed` — no object repeats a name, which holds of every value that is read from text.
-/

namespace RuleEditor

/-- A value of JSON. Objects are lists of members, so that their order is kept and a repeated name
can be spoken of; `Json.WellFormed` says that there is none. -/
inductive Json where
  /-- The value `null`. -/
  | null
  /-- A truth value. -/
  | bool (b : Bool)
  /-- A number. -/
  | num (n : Json.Number)
  /-- A text. -/
  | str (s : String)
  /-- A list of values. -/
  | arr (items : List Json)
  /-- A map from names to values. -/
  | obj (members : List (String × Json))
deriving Repr, Inhabited

namespace Json

/-- The members of an object. -/
abbrev Object := OrderedMap Json

/-- A signed integer of 64 bits as a value. -/
def ofInt64 (n : Int64) : Json := .num (.ofInt64 n)

/-- A natural number as a value, if it is small enough for one; a greater one becomes the greatest
that is. -/
def ofNat (n : Nat) : Json := ofInt64 (Int64.ofIntClamp n)

/-- The text that a value is, if it is one. -/
def str? : Json → Option String
  | .str s => some s
  | _ => none

/-- The truth value that a value is, if it is one. -/
def bool? : Json → Option Bool
  | .bool b => some b
  | _ => none

/-- The items of a list. -/
def arr? : Json → Option (List Json)
  | .arr items => some items
  | _ => none

/-- The members of an object. -/
def obj? : Json → Option Object
  | .obj members => some members
  | _ => none

/-- The signed 64-bit integer that a value is, if it is one; a floating-point number is none. -/
def int64? : Json → Option Int64
  | .num (.int n) => n.toInt64?
  | _ => none

/-- Whether a value is `null`. -/
def isNull : Json → Bool
  | .null => true
  | _ => false

/-- Whether a value is an object. -/
def isObj (v : Json) : Bool := v.obj?.isSome

/-- The member of a name, if the value is an object that has it; other values have no members. -/
def member? (v : Json) (name : String) : Option Json :=
  v.obj?.bind fun members => OrderedMap.get? members name

/-! ## Equality of values -/

mutual

/-- Whether two values are the same, the order of members and the sign of zero aside. An integer and
a floating-point number are not the same, even if their values are equal. -/
def same : Json → Json → Bool
  | .null, .null => true
  | .bool a, .bool b => a == b
  | .num m, .num n => m.same n
  | .str s, .str t => s == t
  | .arr xs, .arr ys => sameItems xs ys
  | .obj xs, .obj ys => xs.length == ys.length && sameMembers xs ys
  | _, _ => false

/-- Whether two lists are the same, item by item. -/
def sameItems : List Json → List Json → Bool
  | [], [] => true
  | x :: xs, y :: ys => x.same y && sameItems xs ys
  | _, _ => false

/-- Whether each member of the first object is one of the second. -/
def sameMembers : List (String × Json) → List (String × Json) → Bool
  | [], _ => true
  | (name, x) :: rest, ys =>
    (match OrderedMap.get? ys name with
      | some y => x.same y
      | none => false) && sameMembers rest ys

end

/-- Whether two objects are the same, the order of members aside. -/
def Object.same (xs ys : Object) : Bool := Json.same (.obj xs) (.obj ys)

/-! ## Values without repeated names -/

mutual

/-- No object within the value repeats a name, at any depth. All values that are read from texts are
well-formed (`Json.wellFormed_of_parse?`). -/
def WellFormed : Json → Prop
  | .arr items => WellFormedItems items
  | .obj members => OrderedMap.Distinct members ∧ WellFormedMembers members
  | _ => True

/-- No object within the items repeats a name. -/
def WellFormedItems : List Json → Prop
  | [] => True
  | v :: rest => v.WellFormed ∧ WellFormedItems rest

/-- No object within the values of the members repeats a name. -/
def WellFormedMembers : List (String × Json) → Prop
  | [] => True
  | (_, v) :: rest => v.WellFormed ∧ WellFormedMembers rest

end

end Json

end RuleEditor
