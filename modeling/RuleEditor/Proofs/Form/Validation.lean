import RuleEditor.Form.Validation
import RuleEditor.Proofs.Catalog.Raw

/-!
# Complete forms

A form without issues is complete. What that asks of a form does not depend on the numbers of its
rows, so it can be said row by row.

## Main definitions

* `ConditionRow.IsComplete`, `ActionRow.IsComplete`, `Form.IsComplete` — nothing is missing.

## Main results

* `Form.issues_eq_nil_iff` — the forms without issues are the complete ones.
* `Form.compile_eq_ok_iff` — a form is accepted exactly if it is complete.
-/

set_option relaxedAutoImplicit false
set_option autoImplicit false

namespace RuleEditor

/-- A row of a condition with a path, and a text or another path on the right side. The operator is
not looked at: a row without one is complete. -/
def ConditionRow.IsComplete (r : ConditionRow) : Prop :=
  Text.isBlank r.path = false ∧ (Text.isBlank r.value = false ∨ r.referencedPath? ≠ none)

/-- A row of an action with a type and, if the catalog knows the type, with a value for each active
parameter that is required. Of a row of an unknown type no parameter is required. -/
def ActionRow.IsComplete (catalog : Catalog) (r : ActionRow) : Prop :=
  match catalog.action? (Text.trim r.type) with
  | some a =>
    ∀ p ∈ a.active r.params, p.required = true →
      p.isMissing (OrderedMap.get? r.params p.name) = false
  | none => Text.isBlank r.type = false

/-- A complete row of an action has a type: no catalog that was read knows a blank one. -/
lemma ActionRow.IsComplete.isBlank_type {events operators actions : Json} {r : ActionRow}
    (h : r.IsComplete (.ofSections events operators actions)) : Text.isBlank r.type = false := by
  unfold ActionRow.IsComplete at h
  split at h
  · next found => simpa using Catalog.isBlank_type_of_action? found
  · exact h

/-- A form in which nothing is missing. Neither the description nor the priority is asked for, and
values that are there are not checked against the kinds of their parameters. -/
structure Form.IsComplete (catalog : Catalog) (f : Form) : Prop where
  /-- The rule has a name. -/
  name : Text.isBlank f.name = false
  /-- An event is selected. -/
  event : Text.isBlank f.event = false
  /-- There is a condition. -/
  conditions_ne_nil : f.conditions ≠ []
  /-- Nothing is missing in the conditions. -/
  conditions : ∀ c ∈ f.conditions, c.IsComplete
  /-- There is an action. -/
  actions_ne_nil : f.actions ≠ []
  /-- Nothing is missing in the actions. -/
  actions : ∀ a ∈ f.actions, a.IsComplete catalog

/-- Rows have no issues exactly if none of them has any, whatever their numbers. -/
lemma issuesOfRows_eq_nil_iff {α : Type} {issues : α → Nat → List Issue} {good : α → Prop}
    (hrow : ∀ r row, issues r row = [] ↔ good r) (rows : List α) (row : Nat) :
    issuesOfRows issues rows row = [] ↔ ∀ r ∈ rows, good r := by
  induction rows generalizing row with
  | nil => simp [issuesOfRows]
  | cons r rest ih => simp [issuesOfRows, hrow, ih]

/-- A row of a condition has no issues exactly if it is complete. -/
theorem ConditionRow.issues_eq_nil_iff (r : ConditionRow) (row : Nat) :
    r.issues row = [] ↔ r.IsComplete := by
  rw [ConditionRow.issues, List.append_eq_nil_iff]
  refine and_congr ?_ ?_
  · cases Text.isBlank r.path <;> simp
  · cases Text.isBlank r.value <;> cases r.referencedPath? <;> simp

/-- A row of an action has no issues exactly if it is complete. -/
theorem ActionRow.issues_eq_nil_iff (catalog : Catalog) (r : ActionRow) (row : Nat) :
    r.issues catalog row = [] ↔ r.IsComplete catalog := by
  rw [ActionRow.issues, ActionRow.IsComplete]
  cases catalog.action? (Text.trim r.type) with
  | none => cases Text.isBlank r.type <;> simp
  | some a => simp [List.filterMap_eq_nil_iff]

namespace Form

/-- The forms without issues are the complete ones, whatever the rows are numbered. -/
theorem issues_eq_nil_iff (catalog : Catalog) (f : Form) :
    f.issues catalog = [] ↔ f.IsComplete catalog := by
  simp only [issues, List.append_eq_nil_iff,
    issuesOfRows_eq_nil_iff ConditionRow.issues_eq_nil_iff,
    issuesOfRows_eq_nil_iff (ActionRow.issues_eq_nil_iff catalog), ite_eq_right_iff,
    imp_false, List.cons_ne_self, List.isEmpty_iff, Bool.not_eq_true]
  constructor
  · rintro ⟨⟨⟨⟨⟨hname, hevent⟩, hconditions⟩, hne⟩, hne'⟩, hactions⟩
    exact ⟨hname, hevent, hne, hconditions, hne', hactions⟩
  · rintro ⟨hname, hevent, hne, hconditions, hne', hactions⟩
    exact ⟨⟨⟨⟨⟨hname, hevent⟩, hconditions⟩, hne⟩, hne'⟩, hactions⟩

/-- A form is accepted exactly if it is complete, and then it is saved as it is. So what an accepted
form says can be read off the form and its rule, without the validation. -/
theorem compile_eq_ok_iff (catalog : Catalog) (f : Form) (r : Rule) :
    f.compile catalog = .ok r ↔ f.IsComplete catalog ∧ f.toRule catalog = r := by
  rw [← issues_eq_nil_iff, compile]
  cases f.issues catalog with
  | nil => simp
  | cons issue rest => simp

end Form

end RuleEditor
