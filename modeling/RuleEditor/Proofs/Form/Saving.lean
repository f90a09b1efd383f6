import RuleEditor.Proofs.Form.Reopening

/-!
# What a save keeps

Opening a rule as a form and saving it may change texts, values and the grouping of conditions, but
it keeps the conditions and actions themselves: one for one, in the order in which they stand in the
rule. Saving is thus safe on rules of any shape, also on those with comparisons that lack a path,
with parts that are not recognized and with actions of unknown types.

## Main definitions

* `Rule.IsSaveOf` — a rule has what another one keeps when it is saved.

## Main results

* `Form.toRule_ofRule_isSaveOf` — a rule with conditions and actions keeps them when it is saved,
  and the saved rule is shown without loss of grouping.
-/

set_option relaxedAutoImplicit false
set_option autoImplicit false

namespace RuleEditor

/-- The rule `s` has what `r` keeps when it is opened and saved: trimmed texts, the priority and
whether it is in force; all comparisons in one group under the aggregator of the root, each with its
operator and trimmed path; and all actions with their trimmed types. Nothing is said of right sides
and parameters, which may change. -/
structure Rule.IsSaveOf (s r : Rule) : Prop where
  /-- The name is trimmed. -/
  name : s.name = Text.trim r.name
  /-- The description is trimmed, and a blank one is gone. -/
  description : s.description = r.description.bind Text.nonBlank?
  /-- The type of the event is trimmed. -/
  event : s.event = Text.trim r.event
  /-- The priority is the same. -/
  priority : s.priority = r.priority
  /-- Both rules are in force, or neither is. -/
  active : s.active = r.active
  /-- There is one comparison for each, from left to right. -/
  expression : ∃ conditions, s.expression = .flat r.expression.aggregator conditions ∧
    List.Forall₂ (fun saved c => saved.op = c.op ∧ saved.path = Text.trim c.path)
      conditions r.expression.conditions
  /-- There is one action for each, in order. -/
  actions : List.Forall₂ (fun saved a => saved.type = Text.trim a.type) s.actions r.actions

/-- A condition keeps its operator and its trimmed path, whatever its right side. -/
lemma ConditionRow.toCondition_ofCondition_keeps (c : Condition) :
    (ofCondition c).toCondition.op = c.op ∧
      (ofCondition c).toCondition.path = Text.trim c.path := by
  rw [ofCondition]
  split <;> exact ⟨rfl, rfl⟩

namespace Form

/-- Stored actions keep their trimmed types, one by one. -/
lemma forall₂_type_storedRows (catalog : Catalog) (actions : List StoredAction) (next : Nat) :
    List.Forall₂ (fun saved a => saved.type = Text.trim a.type)
      ((storedRows catalog actions next).map (ActionRow.toStored catalog)) actions := by
  induction actions generalizing next with
  | nil => exact .nil
  | cons a rest ih =>
    rw [storedRows, List.map_cons]
    refine .cons ?_ (ih (next + 1))
    rw [ActionRow.type_toStored, ActionRow.type_ofStored]

/-- **A save keeps all conditions and actions of a rule in order**, as long as there are any of
both, and the rule that is saved has no grouping that its form would not show.

**Proof sketch.** The form lists the comparisons of the tree from left to right
(`Expression.conditions_flatten`) and saves each row by itself, and the same goes for the actions;
the priority is read back from its text. What is saved is a single group. -/
theorem toRule_ofRule_isSaveOf (catalog : Catalog) (config : Config) (next : Nat) {r : Rule}
    (hconditions : r.expression.conditions ≠ []) (hactions : r.actions ≠ []) :
    let saved := (ofRule catalog config next r).toRule catalog
    saved.IsSaveOf r ∧ ∀ again, (ofRule catalog config again saved).collapsedNesting = false := by
  intro saved
  have hflat : saved.expression = .flat r.expression.aggregator
      ((r.expression.conditions.map ConditionRow.ofCondition).map ConditionRow.toCondition) := by
    simp only [saved, toRule, ofRule]
    rw [Expression.conditions_flatten, conditionRows_eq_map catalog config hconditions]
  refine ⟨⟨rfl, ?_, rfl, ?_, rfl, ⟨_, hflat, ?_⟩, ?_⟩, fun again => ?_⟩
  · -- a description that is missing is opened as an empty text
    simp only [saved, toRule, ofRule]
    cases r.description with
    | none => rfl
    | some s => rfl
  · simp only [saved, toRule, ofRule, Priority.ofText_ofInt]
  · rw [List.map_map, List.forall₂_map_left_iff]
    exact List.forall₂_same.2 fun c _ => ConditionRow.toCondition_ofCondition_keeps c
  · have hrows : actionRows catalog next r.actions = storedRows catalog r.actions next :=
      actionRows_eq_storedRows next (.inl hactions)
    simp only [saved, toRule, ofRule, hrows]
    exact forall₂_type_storedRows catalog r.actions next
  · simp only [ofRule, hflat, Expression.flatten_flat]

/-- A rule of all kinds of parts: a comparison without path and operator in a group of another
aggregator than the root, a group without parts, something that is no part, and actions of a known,
an unknown and an empty type. -/
def mixedRule : Rule where
  name := " r "
  description := some " "
  priority := -9223372036854775808
  active := false
  expression := ⟨" Or ", [.unrecognized .null, .group "and" [.condition { op := "", path := "" },
    .group "" []], .condition { op := "in", path := " $.a", right := some (.literal (.arr [])) }]⟩
  actions := [{ type := "tag" }, { type := " webhook", params := [("url", .null)] }, { type := "" }]

/-- That rule keeps its two comparisons and three actions. -/
theorem toRule_ofRule_mixedRule :
    let catalog : Catalog := { actions := [{ type := "tag" }] }
    let saved := (ofRule catalog {} 1 mixedRule).toRule catalog
    mixedRule.expression.conditions ≠ [] ∧ mixedRule.actions ≠ [] ∧ saved.IsSaveOf mixedRule ∧
      ∀ again, (ofRule catalog {} again saved).collapsedNesting = false := by
  have hconditions : mixedRule.expression.conditions ≠ [] := List.cons_ne_nil _ _
  have hactions : mixedRule.actions ≠ [] := List.cons_ne_nil _ _
  exact ⟨hconditions, hactions, toRule_ofRule_isSaveOf _ {} 1 hconditions hactions⟩

end Form

end RuleEditor
