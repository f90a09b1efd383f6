import Mathlib.Tactic.Lemma
import RuleEditor.Expression.Flatten
import RuleEditor.Expression.Meaning

/-!
# What flattening collects

Flattening goes through a tree with an accumulator. What it adds to the accumulator is the list of
comparisons of the tree, from left to right, and a mark if a group differs from the group around it.
Each group is compared with the next one outside alone, which comes to the same as comparing all of
them with the root.

## Main results

* `Expression.conditions_flatten` — the list of an expression holds its comparisons in order.
* `Expression.collapsedNesting_flatten` — the grouping is kept exactly if all groups are joined as
  the root is.
* `Expression.flatten_flat` — a single group has nothing to lose.
-/

set_option relaxedAutoImplicit false
set_option autoImplicit false

namespace RuleEditor

namespace Flattened

mutual

/-- Going through a part adds its comparisons behind those that were there, whatever the group
around it is. -/
lemma conditions_visit (outer : Aggregator) :
    ∀ (n : Node) (f : Flattened), (visit outer n f).conditions = f.conditions ++ n.conditions
  | .condition c, f => by simp [visit, add, Node.conditions]
  | .group op args, f => by
    rw [visit, conditions_visitList (.ofText op) args, Node.conditions]
    rfl
  | .unrecognized v, f => by simp [visit, Node.conditions]

/-- Going through a list of parts adds their comparisons. -/
lemma conditions_visitList (outer : Aggregator) :
    ∀ (ns : List Node) (f : Flattened),
      (visitList outer ns f).conditions = f.conditions ++ Node.conditionsOfList ns
  | [], f => by simp [visitList, Node.conditionsOfList]
  | n :: rest, f => by
    rw [visitList, conditions_visitList outer rest, conditions_visit outer n f,
      Node.conditionsOfList, List.append_assoc]

end

mutual

/-- Going through a part sets the mark unless every group within it has the outer aggregator.

**Proof sketch.** The parts of a group are compared with its own aggregator. If that is the outer
one, comparing them with either is the same; if it is not, the group itself sets the mark. -/
lemma collapsedNesting_visit (outer : Aggregator) :
    ∀ (n : Node) (f : Flattened),
      (visit outer n f).collapsedNesting = (f.collapsedNesting || !n.isUniform outer)
  | .condition c, f => by simp [visit, add, Node.isUniform]
  | .group op args, f => by
    rw [visit, collapsedNesting_visitList (.ofText op) args, Node.isUniform, enter]
    by_cases h : Aggregator.ofText op = outer
    · simp [h]
    · simp [h]
  | .unrecognized v, f => by simp [visit, Node.isUniform]

/-- Going through a list of parts sets the mark unless every group within them has the outer
aggregator. -/
lemma collapsedNesting_visitList (outer : Aggregator) :
    ∀ (ns : List Node) (f : Flattened),
      (visitList outer ns f).collapsedNesting
        = (f.collapsedNesting || !Node.areUniform outer ns)
  | [], f => by simp [visitList, Node.areUniform]
  | n :: rest, f => by
    rw [visitList, collapsedNesting_visitList outer rest, collapsedNesting_visit outer n f,
      Node.areUniform, Bool.not_and, Bool.or_assoc]

end

/-- Going through comparisons alone adds them and leaves the mark as it is: without a group there is
nothing to lose. -/
lemma visitList_map_condition (outer : Aggregator) (cs : List Condition) (f : Flattened) :
    visitList outer (cs.map .condition) f = { f with conditions := f.conditions ++ cs } := by
  induction cs generalizing f with
  | nil => simp [visitList]
  | cons c rest ih => simp [visitList, visit, add, ih]

end Flattened

namespace Expression

/-- The list of an expression holds its comparisons, from left to right. None is dropped and none is
repeated, also where the grouping is lost. -/
theorem conditions_flatten (e : Expression) : e.flatten.conditions = e.conditions := by
  rw [flatten, Flattened.conditions_visitList]
  rfl

/-- The grouping of an expression is kept exactly if every group within it is joined as the root is.
Flattening compares each group with the next one outside; along a branch without a difference that
is the aggregator of the root all the way down. -/
theorem collapsedNesting_flatten (e : Expression) :
    e.flatten.collapsedNesting = !Node.areUniform e.aggregator e.args := by
  rw [flatten, Flattened.collapsedNesting_visitList, Bool.false_or]

/-- The list of a single group is the list of its comparisons, and no grouping is lost. This is what
reopening a saved rule comes down to: forms save flat expressions only. -/
@[simp] theorem flatten_flat (a : Aggregator) (cs : List Condition) :
    (flat a cs).flatten = { conditions := cs, collapsedNesting := false } := by
  simp [flatten, flat, Flattened.visitList_map_condition]

/-- The aggregator of a single group is read back from its name. -/
@[simp] lemma aggregator_flat (a : Aggregator) (cs : List Condition) :
    (flat a cs).aggregator = a := Aggregator.ofText_name a

end Expression

end RuleEditor
