import RuleEditor.Expression.Basic

/-!
# Flattening

A form shows the comparisons of an expression as one list under one aggregator. Where a group within
the tree has another aggregator than the group around it, the list does not say the same as the
tree; that is reported and not repaired.

## Main definitions

* `Flattened` — the comparisons, and whether the grouping was lost.
* `Expression.flatten` — the list of an expression.
-/

namespace RuleEditor

/-- The comparisons of an expression as a list, with a mark that says whether the list is less than
the tree. It is the accumulator of the walk through the tree, too, and starts empty and unmarked. -/
structure Flattened where
  /-- The comparisons, in the order in which they stand in the tree. -/
  conditions : List Condition := []
  /-- Whether a group has another aggregator than the group around it. -/
  collapsedNesting : Bool := false
deriving Inhabited

namespace Flattened

/-- One more comparison. -/
def add (f : Flattened) (c : Condition) : Flattened :=
  { f with conditions := f.conditions ++ [c] }

/-- Takes note of the aggregator of a group inside a group. The names are compared by what they
stand for: `OR` inside `or` loses nothing. -/
def enter (f : Flattened) (outer inner : Aggregator) : Flattened :=
  { f with collapsedNesting := f.collapsedNesting || decide (inner ≠ outer) }

mutual

/-- Goes through a part of a group with the given aggregator. A comparison is added, a group is
compared with the group around it and gone through under its own aggregator, and what is not
recognized is passed over. -/
def visit (outer : Aggregator) : Node → Flattened → Flattened
  | .condition c, f => f.add c
  | .group op args, f => visitList (.ofText op) args (f.enter outer (.ofText op))
  | .unrecognized _, f => f

/-- Goes through the parts of a group with the given aggregator, from left to right. -/
def visitList (outer : Aggregator) : List Node → Flattened → Flattened
  | [], f => f
  | n :: rest, f => visitList outer rest (visit outer n f)

end

end Flattened

/-- The comparisons of an expression, depth first and from left to right, with the mark set if the
grouping of the tree is lost in the list. An empty inner group with another aggregator sets the mark
too. -/
def Expression.flatten (e : Expression) : Flattened :=
  Flattened.visitList e.aggregator e.args {}

end RuleEditor
