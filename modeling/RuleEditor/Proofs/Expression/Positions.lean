import RuleEditor.Proofs.Expression.Flatten

/-!
# Where comparisons stand

A position in a tree is the list of the places that lead to it from the root, each counted from zero
among the parts of its group. In lexicographic order a group comes before its parts, and what stands
in one part before what stands in a later one: this is the order depth first, from left to right.
Flattening lists what stands at the positions of the comparisons in that order.

## Main definitions

* `Node.partAt?`, `Expression.partAt?` — what stands at a position.
* `Node.conditionPositions` — the positions of the comparisons of a part.

## Main results

* `Node.mem_conditionPositions_iff` — these are the positions at which a comparison stands.
* `Node.pairwise_conditionPositions` — they come in order, each of them once.
* `Node.map_partAt?_conditionPositions` — the comparisons stand at them.
* `Node.isUniform_iff` — all groups are joined alike, wherever they stand.
* `Expression.flatten_at_positions` — what a list of comparisons holds, and when grouping is lost.
-/

set_option relaxedAutoImplicit false
set_option autoImplicit false

namespace RuleEditor

namespace Node

/-- What holds of comparisons, of what is not recognized, and of a group if it holds of its parts
holds of every part. The recursor that Lean generates for `Node` has a second motive for lists of
parts; here membership takes its place. -/
@[elab_as_elim]
lemma inductionOnParts {motive : Node → Prop} (condition : ∀ c, motive (.condition c))
    (group : ∀ op args, (∀ n ∈ args, motive n) → motive (.group op args))
    (unrecognized : ∀ v, motive (.unrecognized v)) (n : Node) : motive n := by
  cases n with
  | condition c => exact condition c
  | group op args =>
    refine group op args fun m hm => ?_
    have : sizeOf m < sizeOf args := List.sizeOf_lt_of_mem hm
    exact inductionOnParts condition group unrecognized m
  | unrecognized v => exact unrecognized v
termination_by sizeOf n

/-! ## Positions -/

/-- What stands at a position within a part: the part itself at the end of the way, and from a group
on what stands at the rest of the way within one of its parts. -/
def partAt? : Node → List Nat → Option Node
  | n, [] => some n
  | .group _ args, i :: rest =>
    match args[i]? with
    | some n => partAt? n rest
    | none => none
  | _, _ :: _ => none

mutual

/-- The positions of the comparisons of a part, from left to right. A comparison stands at the end
of the empty way. -/
def conditionPositions : Node → List (List Nat)
  | .condition _ => [[]]
  | .group _ args => conditionPositionsFrom 0 args
  | .unrecognized _ => []

/-- The positions of the comparisons of the parts of a group from the `i`-th on. -/
def conditionPositionsFrom (i : Nat) : List Node → List (List Nat)
  | [] => []
  | n :: rest => (conditionPositions n).map (i :: ·) ++ conditionPositionsFrom (i + 1) rest

end

/-- The way that goes nowhere ends at the part itself. -/
@[simp] lemma partAt?_nil (n : Node) : n.partAt? [] = some n := by
  cases n <;> rfl

/-- A way into a group leads to one of its parts, if there is one at that place, and on from there.
-/
@[simp] lemma partAt?_group_cons (op : String) (args : List Node) (i : Nat) (rest : List Nat) :
    (group op args).partAt? (i :: rest) = args[i]?.bind fun n => n.partAt? rest := by
  rw [partAt?]
  cases args[i]? <;> rfl

/-- The positions that are listed from a place on begin with that place or a later one, and go on
with a position of a comparison within the part that stands there. -/
lemma mem_conditionPositionsFrom_iff {p : List Nat} (ns : List Node) :
    ∀ i, p ∈ conditionPositionsFrom i ns ↔
      ∃ j n q, ns[j]? = some n ∧ q ∈ n.conditionPositions ∧ p = (i + j) :: q := by
  induction ns with
  | nil => simp [conditionPositionsFrom]
  | cons n rest ih =>
    intro i
    rw [conditionPositionsFrom, List.mem_append, List.mem_map, ih]
    constructor
    · rintro (⟨q, hq, rfl⟩ | ⟨j, m, q, hm, hq, rfl⟩)
      · exact ⟨0, n, q, rfl, hq, rfl⟩
      · exact ⟨j + 1, m, q, hm, hq, by rw [Nat.add_right_comm, Nat.add_assoc]⟩
    · rintro ⟨j, m, q, hm, hq, rfl⟩
      cases j with
      | zero =>
        obtain rfl : n = m := by simpa using hm
        exact .inl ⟨q, hq, rfl⟩
      | succ j => exact .inr ⟨j, m, q, hm, hq, by rw [Nat.add_right_comm, Nat.add_assoc]⟩

/-- The listed positions are those at which a comparison stands: none is missing, and at none of
them stands a group or something that is not recognized. -/
theorem mem_conditionPositions_iff (n : Node) :
    ∀ p, p ∈ n.conditionPositions ↔ ∃ c, n.partAt? p = some (.condition c) := by
  induction n using inductionOnParts with
  | condition c =>
    intro p
    cases p <;> simp [conditionPositions, partAt?]
  | group op args ih =>
    intro p
    rw [conditionPositions, mem_conditionPositionsFrom_iff]
    cases p with
    | nil => simp
    | cons i rest =>
      simp only [Nat.zero_add, List.cons.injEq, partAt?_group_cons, Option.bind_eq_some_iff]
      constructor
      · rintro ⟨j, n, q, hn, hq, rfl, rfl⟩
        obtain ⟨c, hc⟩ := (ih n (List.mem_of_getElem? hn) _).1 hq
        exact ⟨c, n, hn, hc⟩
      · rintro ⟨c, n, hn, hc⟩
        exact ⟨i, n, rest, hn, (ih n (List.mem_of_getElem? hn) _).2 ⟨c, hc⟩, rfl, rfl⟩
  | unrecognized v =>
    intro p
    cases p <;> simp [conditionPositions, partAt?]

/-- The positions are listed in lexicographic order, each of them once. Those within one part share
its place as their first entry, and those of later parts begin with a greater one. -/
theorem pairwise_conditionPositions (n : Node) : n.conditionPositions.Pairwise (· < ·) := by
  induction n using inductionOnParts with
  | condition c => exact List.pairwise_singleton _ _
  | group op args ih =>
    rw [conditionPositions]
    -- what comes from one part begins with its place, what comes from later ones with a later place
    generalize 0 = i
    induction args generalizing i with
    | nil => exact .nil
    | cons n rest ihrest =>
      rw [conditionPositionsFrom, List.pairwise_append]
      refine ⟨?_, ihrest (fun m hm => ih m (List.mem_cons_of_mem _ hm)) _, ?_⟩
      · refine List.pairwise_map.2 ((ih n List.mem_cons_self).imp ?_)
        intro p q hpq
        exact List.cons_lt_cons_self.2 hpq
      · intro p hp q hq
        obtain ⟨p', _, rfl⟩ := List.mem_map.1 hp
        obtain ⟨j, _, q', _, _, rfl⟩ := (mem_conditionPositionsFrom_iff rest _).1 hq
        exact List.cons_lt_cons_iff.2 (.inl (by omega))
  | unrecognized v => exact .nil

/-- Going through the positions from a place on with a function that finds there what stands in the
parts gives the comparisons of the parts. -/
lemma map_conditionPositionsFrom {f : List Nat → Option Node} (ns : List Node)
    (hns : ∀ n ∈ ns, n.conditionPositions.map n.partAt?
      = n.conditions.map fun c => some (.condition c)) :
    ∀ i, (∀ j n, ns[j]? = some n → ∀ q, f ((i + j) :: q) = n.partAt? q) →
      (conditionPositionsFrom i ns).map f
        = (conditionsOfList ns).map fun c => some (.condition c) := by
  induction ns with
  | nil => exact fun _ _ => rfl
  | cons n rest ih =>
    intro i hf
    have hhead : ∀ q, f (i :: q) = n.partAt? q := hf 0 n rfl
    have hrest : ∀ j m, rest[j]? = some m → ∀ q, f ((i + 1 + j) :: q) = m.partAt? q := by
      intro j m hm q
      rw [Nat.add_right_comm, Nat.add_assoc]
      exact hf (j + 1) m hm q
    rw [conditionPositionsFrom, conditionsOfList, List.map_append, List.map_append, List.map_map,
      ih (fun m hm => hns m (List.mem_cons_of_mem _ hm)) (i + 1) hrest,
      ← hns n List.mem_cons_self]
    congr 1
    exact List.map_congr_left fun q _ => hhead q

/-- At the positions of the comparisons stand the comparisons, in their order. This ties the list
that a walk collects to the shape of the tree. -/
theorem map_partAt?_conditionPositions (n : Node) :
    n.conditionPositions.map n.partAt? = n.conditions.map fun c => some (.condition c) := by
  induction n using inductionOnParts with
  | condition c => rfl
  | group op args ih =>
    refine map_conditionPositionsFrom args ih 0 ?_
    intro j n hn q
    rw [Nat.zero_add, partAt?_group_cons, hn, Option.bind_some]
  | unrecognized v => rfl

/-! ## Groups -/

/-- All groups within a list of parts are joined alike exactly if this holds within each of the
parts. -/
lemma areUniform_iff {a : Aggregator} (ns : List Node) :
    areUniform a ns = true ↔ ∀ n ∈ ns, n.isUniform a = true := by
  induction ns with
  | nil => simp [areUniform]
  | cons n rest ih => simp [areUniform, ih]

/-- All groups within a part are joined in a given way exactly if every group that stands at some
position of it is. This says without recursion what `Node.isUniform` computes. -/
theorem isUniform_iff {a : Aggregator} (n : Node) :
    n.isUniform a = true ↔
      ∀ p op args, n.partAt? p = some (.group op args) → Aggregator.ofText op = a := by
  induction n using inductionOnParts with
  | condition c =>
    refine ⟨fun _ p op args h => ?_, fun _ => rfl⟩
    cases p <;> simp [partAt?] at h
  | group op args ih =>
    rw [isUniform, Bool.and_eq_true, decide_eq_true_iff, areUniform_iff]
    constructor
    · rintro ⟨hop, hargs⟩ p op' args' h
      cases p with
      | nil =>
        obtain ⟨rfl, rfl⟩ : op = op' ∧ args = args' := by simpa using h
        exact hop
      | cons i rest =>
        rw [partAt?_group_cons, Option.bind_eq_some_iff] at h
        obtain ⟨n, hn, h⟩ := h
        have hmem : n ∈ args := List.mem_of_getElem? hn
        exact (ih n hmem).1 (hargs n hmem) rest op' args' h
    · intro h
      refine ⟨h [] op args (partAt?_nil _), fun n hn => (ih n hn).2 ?_⟩
      intro p op' args' hp
      obtain ⟨i, hi⟩ := List.mem_iff_getElem?.1 hn
      exact h (i :: p) op' args' (by rw [partAt?_group_cons, hi, Option.bind_some, hp])
  | unrecognized v =>
    refine ⟨fun _ p op args h => ?_, fun _ => rfl⟩
    cases p <;> simp [partAt?] at h

end Node

namespace Expression

/-- What stands at a position of an expression: the root is looked at as a group, so that the empty
position is that of the whole. -/
def partAt? (e : Expression) : List Nat → Option Node := (Node.group e.op e.args).partAt?

/-- **Flattening lists the comparisons of a tree depth first, from left to right, and each of them
once; grouping is kept exactly if every group of the tree, at any depth, is joined as the root is.**

**Proof sketch.** The positions of the comparisons in lexicographic order are
`Node.conditionPositions`, and what stands at them are the comparisons of the tree
(`Node.map_partAt?_conditionPositions`), which flattening collects (`conditions_flatten`). That each
group is compared with the next one outside alone comes to the same as comparing all with the root
(`collapsedNesting_flatten`). -/
theorem flatten_at_positions (e : Expression) :
    (∃ positions : List (List Nat), positions.Pairwise (· < ·) ∧
      (∀ p, p ∈ positions ↔ ∃ c, e.partAt? p = some (.condition c)) ∧
      positions.map e.partAt? = e.flatten.conditions.map fun c => some (.condition c)) ∧
    (e.flatten.collapsedNesting = false ↔
      ∀ p op args, e.partAt? p = some (.group op args) → Aggregator.ofText op = e.aggregator) := by
  let root := Node.group e.op e.args
  constructor
  · refine ⟨root.conditionPositions, root.pairwise_conditionPositions,
      root.mem_conditionPositions_iff, ?_⟩
    rw [conditions_flatten]
    exact root.map_partAt?_conditionPositions
  · have huniform : root.isUniform e.aggregator = Node.areUniform e.aggregator e.args := by
      rw [Node.isUniform, aggregator, decide_eq_true rfl, Bool.true_and]
    rw [collapsedNesting_flatten, Bool.not_eq_false', ← huniform]
    exact root.isUniform_iff

end Expression

end RuleEditor
