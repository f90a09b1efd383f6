import Mathlib.Data.List.Forall2
import RuleEditor.Rule

/-!
# Rules up to the order of parameters

The parameters of an action are a map: they are the same if they have the same entries, in whatever
order. All else of a rule has to be equal for two rules to be the same.

## Main definitions

* `StoredAction.EqUpToOrder`, `Rule.EqUpToOrder` — equality with parameters as maps.
-/

set_option relaxedAutoImplicit false
set_option autoImplicit false

namespace RuleEditor

/-- Two actions of one type with the same parameters, in whatever order. The parameters of an action
are a map, and two maps without repeated names are equal as such exactly if their entries are a
permutation of each other. -/
structure StoredAction.EqUpToOrder (a b : StoredAction) : Prop where
  /-- The types are equal. -/
  type : a.type = b.type
  /-- The parameters have the same entries. -/
  params : a.params.Perm b.params

/-- Two rules that are equal but for the order of parameters. Everything else is compared as it
stands: texts, the priority, the condition with the order of its comparisons, and the order of
actions. -/
structure Rule.EqUpToOrder (r s : Rule) : Prop where
  /-- The names are equal. -/
  name : r.name = s.name
  /-- The descriptions are equal. -/
  description : r.description = s.description
  /-- The types of events are equal. -/
  event : r.event = s.event
  /-- The priorities are equal. -/
  priority : r.priority = s.priority
  /-- Both rules are in force, or neither is. -/
  active : r.active = s.active
  /-- The conditions are equal. -/
  expression : r.expression = s.expression
  /-- The actions are the same, one by one. -/
  actions : List.Forall₂ StoredAction.EqUpToOrder r.actions s.actions

end RuleEditor
