import RuleEditor.Proofs.Expression.Flatten

/-!
# Flattening and meaning

The list that flattening makes of an expression stands for a single group under the aggregator of
the root. As long as every group in the tree is joined in the same way, that group is true exactly
when the tree is, whichever comparisons hold: joining is associative, so that the parts of an inner
group may stand among those of the outer one, and a group without parts is neutral.

## Main results

* `Node.joined_append` — joining two lists of parts one after the other.
* `Node.joined_conditionsOfList` — parts that are joined alike say the same as their comparisons.
* `Expression.holds_flat_flatten` — flattening keeps the meaning unless grouping is lost.
-/

set_option relaxedAutoImplicit false
set_option autoImplicit false

namespace RuleEditor

namespace Aggregator

/-- Joining is associative. -/
lemma join_assoc (a : Aggregator) (x y z : Bool) :
    a.join (a.join x y) z = a.join x (a.join y z) := by
  cases a
  · exact Bool.and_assoc x y z
  · exact Bool.or_assoc x y z

/-- What a group without parts says adds nothing to what other parts say. -/
lemma neutral_join (a : Aggregator) (x : Bool) : a.join a.neutral x = x := by
  cases a
  · exact Bool.true_and x
  · exact Bool.false_or x

end Aggregator

namespace Node

/-- A part that is not recognized counts as a group without parts would. With this, the two cases of
`Node.joined` are one equation. -/
lemma joined_cons (truth : Condition → Bool) (a : Aggregator) (n : Node) (rest : List Node) :
    joined truth a (n :: rest)
      = a.join ((n.holds? truth).getD a.neutral) (joined truth a rest) := by
  rw [joined]
  cases n.holds? truth with
  | some b => rfl
  | none => rw [Option.getD_none, Aggregator.neutral_join]

/-- Two lists of parts, one behind the other, are joined as their truth values are. It is what
allows the parts of an inner group to stand among those of the outer one. -/
theorem joined_append (truth : Condition → Bool) (a : Aggregator) (ms ns : List Node) :
    joined truth a (ms ++ ns) = a.join (joined truth a ms) (joined truth a ns) := by
  induction ms with
  | nil => rw [List.nil_append, joined, Aggregator.neutral_join]
  | cons m rest ih =>
    rw [List.cons_append, joined_cons, joined_cons, ih, Aggregator.join_assoc]

mutual

/-- A part in which all groups are joined alike says the same as its comparisons joined in that
way. -/
lemma joined_conditions (truth : Condition → Bool) (a : Aggregator) :
    ∀ n : Node, n.isUniform a = true →
      joined truth a (n.conditions.map .condition) = (n.holds? truth).getD a.neutral
  | .condition c => by
    intro _
    rw [conditions, List.map_singleton, joined_cons, holds?, joined, Option.getD_some]
    cases a
    · exact Bool.and_true _
    · exact Bool.or_false _
  | .group op args => by
    intro h
    obtain ⟨hop, hargs⟩ : Aggregator.ofText op = a ∧ areUniform a args = true := by
      simpa [isUniform] using h
    rw [conditions, holds?, Option.getD_some, hop]
    exact joined_conditionsOfList truth a args hargs
  | .unrecognized v => by
    intro _
    rw [conditions, holds?, List.map_nil, joined, Option.getD_none]

/-- Parts in which all groups are joined alike say, joined in that way, the same as their
comparisons. -/
theorem joined_conditionsOfList (truth : Condition → Bool) (a : Aggregator) :
    ∀ ns : List Node, areUniform a ns = true →
      joined truth a ((conditionsOfList ns).map .condition) = joined truth a ns
  | [] => by
    intro _
    rw [conditionsOfList, List.map_nil]
  | n :: rest => by
    intro h
    obtain ⟨hn, hrest⟩ : n.isUniform a = true ∧ areUniform a rest = true := by
      simpa [areUniform] using h
    rw [conditionsOfList, List.map_append, joined_append, joined_conditions truth a n hn,
      joined_conditionsOfList truth a rest hrest, joined_cons]

end

end Node

namespace Expression

/-- **Flattening keeps the meaning unless grouping is lost.** An expression whose flattening does
not report lost grouping is true exactly when the single group of its comparisons under the
aggregator of its root is, whichever comparisons hold.

**Proof sketch.** No report means that every group is joined as the root is
(`collapsedNesting_flatten`), and then each group may be replaced by its comparisons
(`Node.joined_conditionsOfList`). -/
theorem holds_flat_flatten (e : Expression) (truth : Condition → Bool)
    (h : e.flatten.collapsedNesting = false) :
    (flat e.aggregator e.flatten.conditions).holds truth = e.holds truth := by
  have huniform : Node.areUniform e.aggregator e.args = true := by
    simpa [collapsedNesting_flatten] using h
  calc (flat e.aggregator e.flatten.conditions).holds truth
      = Node.joined truth e.aggregator (e.conditions.map .condition) := by
        rw [holds, aggregator_flat, conditions_flatten, flat]
    _ = Node.joined truth e.aggregator e.args :=
        Node.joined_conditionsOfList truth e.aggregator e.args huniform

/-- A comparison of the value at a path with the text `x`. -/
def comparisonAt (path : String) : Condition :=
  { op := "==", path, right := some (.literal (.str "x")) }

/-- Groups within groups that are all joined by `or`, each spelled in its own way, with a group
without parts and something that is no part of a rule among them. -/
def nestedAlternatives : Expression :=
  ⟨" OR", [.condition (comparisonAt "$.a"),
    .group "or" [.unrecognized .null, .group "Or " [], .condition (comparisonAt "$.b")],
    .group "or" [.group "oR" [.condition (comparisonAt "$.c"), .condition (comparisonAt "$.b")]]]⟩

/-- Of these alternatives the list says the same as the tree if but one of them holds. -/
theorem holds_flat_flatten_nestedAlternatives :
    nestedAlternatives.flatten.collapsedNesting = false ∧
      (flat nestedAlternatives.aggregator nestedAlternatives.flatten.conditions).holds
          (fun c => c.path == "$.c")
        = nestedAlternatives.holds fun c => c.path == "$.c" := by
  have h : nestedAlternatives.flatten.collapsedNesting = false := by decide +kernel
  exact ⟨h, holds_flat_flatten nestedAlternatives _ h⟩

end Expression

end RuleEditor
