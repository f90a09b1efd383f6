import RuleEditor.Expression.Basic

/-!
# The meaning of expressions

An expression is true or false once it is settled which of its comparisons hold. A group joined by
`and` is true if all its parts are, one joined by `or` if some part is; parts that are not
recognized say nothing and are left out.

## Main definitions

* `Node.conditions`, `Expression.conditions` — the comparisons of a tree from left to right.
* `Node.isUniform` — whether every group within a part has a given aggregator.
* `Node.holds?`, `Expression.holds` — the truth value of a part and of an expression.

## Main results

* `Expression.conditions_flat`, `Expression.holds_flat` — the comparisons and the truth value of a
  single group.
-/

namespace RuleEditor

namespace Aggregator

/-- The truth value of a group without parts: the one that does not change what other parts say. -/
def neutral : Aggregator → Bool
  | .and => true
  | .or => false

/-- Joins two truth values. Conjunction and disjunction are handled as one operation, since all that
is shown of them is that they are associative and have a neutral value. -/
def join : Aggregator → Bool → Bool → Bool
  | .and, a, b => a && b
  | .or, a, b => a || b

end Aggregator

namespace Node

mutual

/-- The comparisons of a part, from left to right. -/
def conditions : Node → List Condition
  | .condition c => [c]
  | .group _ args => conditionsOfList args
  | .unrecognized _ => []

/-- The comparisons of a list of parts, from left to right. -/
def conditionsOfList : List Node → List Condition
  | [] => []
  | n :: rest => conditions n ++ conditionsOfList rest

end

mutual

/-- Whether every group within a part, itself included, has the given aggregator. Comparisons and
what is not recognized have no groups within. -/
def isUniform (aggregator : Aggregator) : Node → Bool
  | .group op args => decide (Aggregator.ofText op = aggregator) && areUniform aggregator args
  | _ => true

/-- Whether every group within the parts has the given aggregator. -/
def areUniform (aggregator : Aggregator) : List Node → Bool
  | [] => true
  | n :: rest => isUniform aggregator n && areUniform aggregator rest

end

mutual

/-- The truth value of a part, given which comparisons hold; none if the part is not recognized. The
evaluation of single comparisons is not described here: all that is said of expressions holds for
every assignment of truth values. -/
def holds? (truth : Condition → Bool) : Node → Option Bool
  | .condition c => some (truth c)
  | .group op args => some (joined truth (.ofText op) args)
  | .unrecognized _ => none

/-- The truth value of parts under an aggregator. Parts without a truth value are left out, as an
evaluator that skips what it does not know would do. -/
def joined (truth : Condition → Bool) (aggregator : Aggregator) : List Node → Bool
  | [] => aggregator.neutral
  | n :: rest =>
    match holds? truth n with
    | some b => aggregator.join b (joined truth aggregator rest)
    | none => joined truth aggregator rest

end

/-- The comparisons of a list of comparisons are that list. -/
@[simp] theorem conditionsOfList_map_condition (cs : List Condition) :
    conditionsOfList (cs.map .condition) = cs := by
  induction cs with
  | nil => rfl
  | cons c rest ih => simp [conditionsOfList, conditions, ih]

/-- The truth value of comparisons without groups is the join of their truth values. -/
@[simp] theorem joined_map_condition (truth : Condition → Bool) (aggregator : Aggregator)
    (cs : List Condition) :
    joined truth aggregator (cs.map .condition)
      = cs.foldr (fun c b => aggregator.join (truth c) b) aggregator.neutral := by
  induction cs with
  | nil => rfl
  | cons c rest ih => simp [joined, holds?, ih]

end Node

namespace Aggregator

/-- The name that is written for an aggregator stands for it. -/
@[simp] theorem ofText_name (a : Aggregator) : ofText a.name = a := by
  cases a <;> decide

end Aggregator

namespace Expression

/-- The comparisons of an expression, from left to right, at whatever depth they stand. -/
def conditions (e : Expression) : List Condition := Node.conditionsOfList e.args

/-- The truth value of an expression, given which comparisons hold. This is the meaning that saving
a rule from a form is compared with. -/
def holds (e : Expression) (truth : Condition → Bool) : Bool :=
  Node.joined truth e.aggregator e.args

/-- A single group of comparisons has these comparisons. -/
@[simp] theorem conditions_flat (a : Aggregator) (cs : List Condition) :
    (flat a cs).conditions = cs := by
  simp [conditions, flat]

/-- A single group is true if all or some of its comparisons hold, as its aggregator says: the fold
is a conjunction under `and` and a disjunction under `or`. -/
theorem holds_flat (a : Aggregator) (cs : List Condition) (truth : Condition → Bool) :
    (flat a cs).holds truth = cs.foldr (fun c b => a.join (truth c) b) a.neutral := by
  simp [holds, flat, aggregator]

end Expression

end RuleEditor
