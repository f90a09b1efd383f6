import Mathlib.Tactic.Lemma
import RuleEditor.Json.Record

/-!
# Reading members back

The writers of records leave out members without a value, and their readers take a missing member
for one without a value. A member is read back on its own, whatever stands around it in the record.

## Main results

* `Json.get?_memberIf`, `Json.get?_listIf` — what is found of a member that may have been left out.
* `Json.listOf?_map` — a list of values that are read back one by one is read back.
* `Json.Object.required_of_get?`, `Json.Object.orElse_of_get?` — a member that is there is read.
* `Json.Object.optional_str?_eq_some`, `Json.Object.orElse_listOf?_eq_some` — an optional text, and
  a list that is left out if it is empty, are read back.
* `Json.Object.optional_some` — an optional member that may be any value is read unless it is
  `null`.
-/

set_option relaxedAutoImplicit false
set_option autoImplicit false

namespace RuleEditor.Json

/-! ## What was written -/

/-- A member that is written only if there is a value is found if there is one, and no member of
another name is there. -/
theorem get?_memberIf (name other : String) (v : Option Json) :
    OrderedMap.get? (memberIf name v) other = if name = other then v else none := by
  cases v <;> simp [memberIf, OrderedMap.get?]

/-- A list that is written only if it has items is found if it has some, and no member of another
name is there. -/
theorem get?_listIf (name other : String) (items : List Json) :
    OrderedMap.get? (listIf name items) other =
      if name = other ∧ items ≠ [] then some (.arr items) else none := by
  cases items <;> simp [listIf, OrderedMap.get?]

/-! ## What is read -/

variable {α : Type} {read : Json → Option α} {write : α → Json}

/-- A list of values that are read back one by one is read back. It lifts the round trip of a record
to lists of records. -/
theorem listOf?_map (hread : ∀ a, read (write a) = some a) (items : List α) :
    listOf? read (.arr (items.map write)) = some items := by
  have hitems : (items.map write).mapM read = some items := by
    induction items with
    | nil => rfl
    | cons a rest ih => simp [hread, ih]
  exact hitems

namespace Object

variable {o : Object} {name : String}

/-- A member that must be there is read as its value is. -/
theorem required_of_get? {v : Json} (h : OrderedMap.get? o name = some v) :
    o.required read name = read v := by
  rw [required, h, Option.bind_some]

/-- A member with a default is read as its value is, if it is there. -/
theorem orElse_of_get? {v : Json} (h : OrderedMap.get? o name = some v) (default : α) :
    o.orElse read default name = read v := by
  rw [orElse, h]

/-- An optional text is read back. -/
theorem optional_str?_eq_some {text : Option String}
    (h : OrderedMap.get? o name = text.map .str) : o.optional str? name = some text := by
  unfold optional
  rw [h]
  cases text <;> rfl

/-- A list that is left out if it is empty is read back: a missing list is read as the empty one. -/
theorem orElse_listOf?_eq_some (hread : ∀ a, read (write a) = some a) {items : List α}
    (h : OrderedMap.get? o name = if items ≠ [] then some (.arr (items.map write)) else none) :
    o.orElse (listOf? read) [] name = some items := by
  unfold orElse
  rw [h]
  cases items with
  | nil => rfl
  | cons a rest => exact listOf?_map hread (a :: rest)

/-- An optional member that may be any value is read as it is, and `null` as none. This is where a
`null` that was stored on purpose gets lost. -/
theorem optional_some (o : Object) (name : String) :
    o.optional some name = some ((OrderedMap.get? o name).filter fun v => !v.isNull) := by
  unfold optional
  cases OrderedMap.get? o name with
  | none => rfl
  | some v => cases v <;> rfl

end Object

end RuleEditor.Json
