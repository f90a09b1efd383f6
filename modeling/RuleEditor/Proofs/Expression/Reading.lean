import Mathlib.Tactic.Lemma
import RuleEditor.Expression.Basic

/-!
# Reading what was written

Expressions are read leniently, so that many values are read as the same expression. What is read
has a normal form: no right side is `null` or a literal that looks like a path, and what was not
recognized is neither a comparison nor a group. An expression in normal form is written in such a
way that it is read back, at any depth, and no other is.

## Main definitions

* `Operand.IsNormal`, `Condition.IsNormal`, `Node.IsNormal`, `Expression.IsNormal` — the normal form
  of right sides, comparisons, parts and expressions.
* `Node.IsForeign` — the values that are neither comparisons nor groups.

## Main results

* `Expression.isNormal_ofJson` — what is read is in normal form.
* `Expression.ofJson_toJson_iff` — the expressions that are read back from what was written.
-/

set_option relaxedAutoImplicit false
set_option autoImplicit false

namespace RuleEditor

/-! ## Right sides and comparisons -/

/-- A right side that is a path, or a literal that is neither `null` nor an object with a text under
`path`. -/
def Operand.IsNormal : Operand → Prop
  | .path _ => True
  | .literal v => v.isNull = false ∧ ∀ p, v.member? "path" ≠ some (.str p)

/-- A comparison whose right side, if there is one, is in normal form. -/
def Condition.IsNormal (c : Condition) : Prop := ∀ r, c.right = some r → r.IsNormal

namespace Operand

/-- A value is read as a literal exactly if it is no object with a text under `path`: that is the
only shape in which a path is written. -/
lemma ofJson_eq_literal_iff {v : Json} :
    ofJson v = .literal v ↔ ∀ p, v.member? "path" ≠ some (.str p) := by
  unfold ofJson
  split
  · next p hp => simp [hp]
  · next hnone => simpa using hnone

/-- Every value but `null` is read as a right side in normal form. -/
theorem isNormal_ofJson {v : Json} (hv : v.isNull = false) : (ofJson v).IsNormal := by
  unfold ofJson
  split
  · trivial
  · next hnone => exact ⟨hv, hnone⟩

/-- A right side is read back from a member exactly if it is in normal form. A literal `null` is
read as no right side at all, and a literal that looks like a path as that path. -/
lemma read_toJson_iff (r : Operand) :
    ((some r.toJson).filter fun v => !v.isNull).map ofJson = some r ↔ r.IsNormal := by
  cases r with
  | path p => exact ⟨fun _ => trivial, fun _ => rfl⟩
  | literal v =>
    rw [toJson, Option.filter_some, IsNormal]
    cases hv : v.isNull with
    | true => simp
    | false => simp [ofJson_eq_literal_iff]

end Operand

namespace Condition

/-- A comparison is read with its right side in normal form. -/
lemma isNormal_ofMembers (o : Json.Object) : (ofMembers o).IsNormal := by
  intro r hr
  obtain ⟨v, hv, rfl⟩ := Option.map_eq_some_iff.1 hr
  obtain ⟨-, hnull⟩ := Option.filter_eq_some_iff.1 hv
  exact Operand.isNormal_ofJson (by simpa using hnull)

/-- A comparison is written as an object with a left side and an operator, which is how the reader
knows it from a group. -/
lemma exists_toJson_eq_obj (c : Condition) : ∃ members, c.toJson = .obj members ∧
    OrderedMap.contains members "left" = true ∧ OrderedMap.contains members "op" = true :=
  ⟨_, rfl, rfl, rfl⟩

/-- A comparison is read back exactly if it is in normal form. -/
lemma ofMembers_toJson_iff {c : Condition} {members : Json.Object}
    (h : c.toJson = .obj members) : ofMembers members = c ↔ c.IsNormal := by
  obtain ⟨op, path, right⟩ := c
  obtain rfl := Json.obj.inj h
  cases right with
  | none => exact ⟨fun _ r hr => absurd hr (by simp), fun _ => rfl⟩
  | some r =>
    have hread := r.read_toJson_iff
    constructor
    · rintro hback r' ⟨⟩
      exact hread.1 (congrArg Condition.right hback)
    · intro hnormal
      have hright := hread.2 (hnormal r rfl)
      exact congrArg (Condition.mk op path) hright

end Condition

/-! ## Parts -/

namespace Node

/-- A value that is neither a comparison nor a group: it is no object, or one that lacks a left side
or an operator and has no list of arguments. Such values are kept in the tree without being
understood. -/
def IsForeign : Json → Prop
  | .obj members =>
    (OrderedMap.contains members "left" && OrderedMap.contains members "op") = false ∧
      ∀ items, OrderedMap.get? members "args" ≠ some (.arr items)
  | _ => True

mutual

/-- A part in which all right sides are in normal form and what is not recognized is neither a
comparison nor a group. -/
def IsNormal : Node → Prop
  | .condition c => c.IsNormal
  | .group _ args => AreNormal args
  | .unrecognized v => IsForeign v

/-- A list of parts in normal form. -/
def AreNormal : List Node → Prop
  | [] => True
  | n :: rest => IsNormal n ∧ AreNormal rest

end

/-- The arguments of a group are those under the name `args`, if it holds a list. The reader finds
them by its own recursion over the members, and this says that it is a look-up. -/
lemma argsOfMembers?_eq (members : Json.Object) :
    argsOfMembers? members = (OrderedMap.get? members "args").bind listOfJson? := by
  induction members with
  | nil => rfl
  | cons member rest ih =>
    obtain ⟨name, v⟩ := member
    by_cases hname : name = "args" <;> simp [argsOfMembers?, OrderedMap.get?, hname, ih]

/-- The members of an object give no arguments exactly if there is no list under `args`. -/
lemma argsOfMembers?_eq_none_iff {members : Json.Object} :
    argsOfMembers? members = none ↔
      ∀ items, OrderedMap.get? members "args" ≠ some (.arr items) := by
  rw [argsOfMembers?_eq]
  cases OrderedMap.get? members "args" with
  | none => simp
  | some v => cases v <;> simp [listOfJson?]

/-- A value that is neither a comparison nor a group is kept as it is. -/
lemma ofJson_of_isForeign {v : Json} (h : IsForeign v) : ofJson v = .unrecognized v := by
  cases v with
  | obj members =>
    obtain ⟨hcondition, hgroup⟩ := h
    rw [ofJson, hcondition, argsOfMembers?_eq_none_iff.2 hgroup]
    rfl
  | _ => rfl

mutual

/-- A part that is read is in normal form. What is kept without being recognized was tried as a
comparison and as a group before, and is neither. -/
theorem isNormal_ofJson : ∀ v : Json, (ofJson v).IsNormal
  | .obj members => by
    rw [ofJson]
    split
    · exact Condition.isNormal_ofMembers members
    · next hcondition =>
      split
      · next args hargs => exact areNormal_argsOfMembers? members hargs
      · next hnone =>
        exact ⟨by simpa using hcondition, argsOfMembers?_eq_none_iff.1 hnone⟩
  | .null | .bool _ | .num _ | .str _ | .arr _ => trivial

/-- The arguments that the members of an object give are in normal form. -/
lemma areNormal_argsOfMembers? :
    ∀ (members : List (String × Json)) {args : List Node},
      argsOfMembers? members = some args → AreNormal args
  | [], args, h => by simp [argsOfMembers?] at h
  | (name, v) :: rest, args, h => by
    rw [argsOfMembers?] at h
    split at h
    · exact areNormal_listOfJson? v h
    · exact areNormal_argsOfMembers? rest h

/-- A list of parts that is read is in normal form. -/
lemma areNormal_listOfJson? :
    ∀ (v : Json) {args : List Node}, listOfJson? v = some args → AreNormal args
  | .arr items, args, h => by
    rw [listOfJson?] at h
    obtain rfl := Option.some.inj h
    exact areNormal_listOfItems items
  | .null, args, h | .bool _, args, h | .num _, args, h | .str _, args, h | .obj _, args, h => by
    simp [listOfJson?] at h

/-- The parts that items are read as are in normal form. -/
lemma areNormal_listOfItems : ∀ items : List Json, AreNormal (listOfItems items)
  | [] => trivial
  | v :: rest => ⟨isNormal_ofJson v, areNormal_listOfItems rest⟩

end

/-- A comparison is read back as a part exactly if it is in normal form: what is written of it has a
left side and an operator. -/
lemma ofJson_condition_iff (c : Condition) :
    ofJson c.toJson = .condition c ↔ c.IsNormal := by
  obtain ⟨members, hmembers, hleft, hop⟩ := c.exists_toJson_eq_obj
  rw [← Condition.ofMembers_toJson_iff hmembers, hmembers, ofJson, hleft, hop]
  simp

/-- A group is read back with the arguments that its written arguments are read as: what is written
of it has no left side. -/
lemma ofJson_group (op : String) (args : List Node) :
    ofJson (toJson (.group op args)) = .group op (listOfItems (listToJson args)) := by
  rw [toJson, ofJson]
  rfl

mutual

/-- A part is read back from what is written of it exactly if it is in normal form. Each constructor
is written in a form of its own: a comparison has a left side, a group has arguments and no left
side, and what is not recognized has neither. -/
theorem ofJson_toJson_iff : ∀ n : Node, ofJson n.toJson = n ↔ n.IsNormal
  | .condition c => by
    rw [toJson, IsNormal]
    exact ofJson_condition_iff c
  | .group op args => by
    rw [ofJson_group, IsNormal, ← listOfItems_listToJson_iff args]
    simp
  | .unrecognized v => by
    rw [toJson]
    constructor
    · intro hback
      have hnormal := isNormal_ofJson v
      rwa [hback] at hnormal
    · exact ofJson_of_isForeign

/-- A list of parts is read back from what is written of it exactly if it is in normal form. -/
lemma listOfItems_listToJson_iff :
    ∀ ns : List Node, listOfItems (listToJson ns) = ns ↔ AreNormal ns
  | [] => ⟨fun _ => trivial, fun _ => rfl⟩
  | n :: rest => by
    rw [listToJson, listOfItems, List.cons_eq_cons, ofJson_toJson_iff n,
      listOfItems_listToJson_iff rest, AreNormal]

end

end Node

/-! ## Expressions -/

namespace Expression

/-- An expression whose parts are in normal form. -/
def IsNormal (e : Expression) : Prop := Node.AreNormal e.args

/-- **What is read is in normal form**, whatever value it was read from. So nothing is lost by
writing a rule that was read before. -/
theorem isNormal_ofJson (v : Json) : (ofJson v).IsNormal := by
  cases v with
  | obj members =>
    rw [IsNormal, ofJson]
    cases hargs : Node.argsOfMembers? members with
    | none => trivial
    | some args => exact Node.areNormal_argsOfMembers? members hargs
  | _ => trivial

/-- **An expression is read back from what is written of it exactly if it is in normal form.** The
condition is on its right sides and on what is not recognized in it, at any depth; names of
aggregators and operators may be any texts. -/
theorem ofJson_toJson_iff (e : Expression) : ofJson e.toJson = e ↔ e.IsNormal := by
  obtain ⟨op, args⟩ := e
  have hread : ofJson (toJson ⟨op, args⟩) =
      ⟨op, Node.listOfItems (Node.listToJson args)⟩ := rfl
  rw [hread, IsNormal, ← Node.listOfItems_listToJson_iff args]
  simp

end Expression

end RuleEditor
