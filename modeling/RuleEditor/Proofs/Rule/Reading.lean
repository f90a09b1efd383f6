import RuleEditor.Proofs.Expression.Reading
import RuleEditor.Proofs.Json.Record
import RuleEditor.Rule

/-!
# Reading written rules

A rule is written as a record in which every member but a missing description stands. All members
are read back as they were, whatever the rule, but for the condition, which has to be in normal
form. Rules that were read have it, so that reading, writing and reading again is reading.

## Main results

* `Rule.ofJson?_toJson_iff` — the rules that are read back from what was written of them.
* `Rule.ofJson?_toJson_of_eq_some` — rules and expressions that were read are read back.
-/

set_option relaxedAutoImplicit false
set_option autoImplicit false

namespace RuleEditor

/-- An action is read back from its record. -/
lemma StoredAction.ofJson?_toJson (a : StoredAction) : ofJson? a.toJson = some a := rfl

namespace Rule

/-- A rule is read from its record with the condition that is read from the written one. -/
lemma ofJson?_toJson (r : Rule) :
    ofJson? r.toJson = some { r with expression := .ofJson r.expression.toJson } := by
  obtain ⟨name, description, event, priority, active, expression, actions⟩ := r
  have hactions := Json.listOf?_map StoredAction.ofJson?_toJson actions
  cases description <;>
    simp [ofJson?, toJson, Json.fields?, Json.memberIf, Json.Object.orElseNull,
      Json.Object.optional, Json.str?, OrderedMap.get?, hactions]

/-- **A rule is read back from its record exactly if its condition is in normal form.** All other
members are written so that they are read as they were, for any rule: a priority as a number,
parameters as members in their order, and a missing description as no member. -/
theorem ofJson?_toJson_iff (r : Rule) : ofJson? r.toJson = some r ↔ r.expression.IsNormal := by
  rw [ofJson?_toJson, ← Expression.ofJson_toJson_iff, Option.some_inj]
  constructor
  · exact congrArg Rule.expression
  · intro hback
    rw [hback]

/-- A rule that was read has a condition in normal form. -/
lemma isNormal_of_ofJson? {v : Json} {r : Rule} (h : ofJson? v = some r) :
    r.expression.IsNormal := by
  simp only [ofJson?, Option.bind_eq_bind, Option.bind_eq_some_iff, Option.pure_def,
    Option.some.injEq] at h
  obtain ⟨o, -, name, -, description, -, event, -, actions, -, rfl⟩ := h
  cases hmember : OrderedMap.get? o "expression" with
  | none => trivial
  | some v => exact Expression.isNormal_ofJson v

/-- **Reading reaches a normal form in one step.** The expression that any value is read as is read
back from what is written of it, and so is any rule that could be read.

**Proof sketch.** What is read is in normal form, at any depth, and that is what it takes to be read
back (`Expression.ofJson_toJson_iff`, `ofJson?_toJson_iff`). -/
theorem ofJson?_toJson_of_eq_some (v : Json) :
    Expression.ofJson (Expression.ofJson v).toJson = Expression.ofJson v ∧
      ∀ r, ofJson? v = some r → ofJson? r.toJson = some r := by
  refine ⟨(Expression.ofJson_toJson_iff _).2 (Expression.isNormal_ofJson v), fun r hr => ?_⟩
  exact (ofJson?_toJson_iff r).2 (isNormal_of_ofJson? hr)

/-- A record that was not written by this library: a comparison whose left side and operator are no
texts and that holds arguments as well, a group without an operator, a right side that is `null`, an
object that lacks too much to be a part, and members that are `null` or missing. -/
def looseRecord : Json :=
  .obj [("name", .null), ("priority", .str " 7"), ("active", .str "no"),
    ("expression", .obj [("op", .str "OR"), ("args", .arr [
      .obj [("left", .str "$.a"), ("op", .bool true), ("args", .arr []),
        ("right", .obj [("path", .str "$.b"), ("note", .str "x")])],
      .obj [("args", .arr [
        .obj [("op", .str "=="), ("left", .obj [("path", .str "$.c")]), ("right", .null)],
        .obj [("left", .null), ("args", .str "x")]])]])]),
    ("actions", .arr [.obj [("params", .null)]])]

/-- The rule that it is read as. -/
def looseRule : Rule where
  priority := 7
  expression := ⟨"OR", [.condition { op := "", path := "", right := some (.path "$.b") },
    .group "and" [.condition { op := "==", path := "$.c" },
      .unrecognized (.obj [("left", .null), ("args", .str "x")])]]⟩
  actions := [{ type := "" }]

/-- The rule is read back from its own record. -/
theorem ofJson?_toJson_looseRule :
    ofJson? looseRecord = some looseRule ∧ ofJson? looseRule.toJson = some looseRule := by
  have h : ofJson? looseRecord = some looseRule := by rfl
  exact ⟨h, (ofJson?_toJson_of_eq_some looseRecord).2 looseRule h⟩

end Rule

end RuleEditor
