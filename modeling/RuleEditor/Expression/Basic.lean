import RuleEditor.Json.Printer
import RuleEditor.Json.Lenient

/-!
# Rule expressions

The condition of a rule is a tree: groups joined by `and` or `or`, with comparisons at the leaves.
Trees come from rule stores that others write too, so reading one never fails. What is neither a
comparison nor a group is kept as it is, and has no meaning.

## Main definitions

* `Aggregator` — how a group joins its parts.
* `Operand` — the right side of a comparison: a path or a literal.
* `Condition` — a comparison.
* `Node`, `Expression` — the trees; an expression is a group at the root.
* `Expression.ofJson`, `Expression.toJson` — reads and writes an expression.
-/

namespace RuleEditor

/-- How a group joins its parts. The tree keeps the name of an aggregator as a text, because rule
stores spell it in several ways; this type is what the text comes to. -/
inductive Aggregator where
  /-- All parts have to hold. -/
  | and
  /-- One part has to hold. -/
  | or
deriving DecidableEq, Repr, Inhabited

namespace Aggregator

/-- The aggregator that a text stands for: `or` in any case and with blanks around it, and `and` for
all others. So every text stands for an aggregator, and a group with a misspelt name is joined by
`and`. -/
def ofText (s : String) : Aggregator :=
  if Json.lowerAscii (Text.trim s) = "or" then .or else .and

/-- The name of an aggregator, as it is written into a rule. `ofText` reads it back
(`Aggregator.ofText_name`). -/
def name : Aggregator → String
  | .and => "and"
  | .or => "or"

/-- The aggregator of a name, exactly: a form gives its aggregator by one of the two names and by no
other spelling, unlike a group of a tree. -/
def ofName? (s : String) : Option Aggregator :=
  if s = "and" then some .and else if s = "or" then some .or else none

end Aggregator

/-- The right side of a comparison: what the value at the path of the left side is compared with. -/
inductive Operand where
  /-- The value at another path of the event. -/
  | path (path : String)
  /-- A value. -/
  | literal (value : Json)
deriving Inhabited

namespace Operand

/-- An object with a text under `path` is a path, whatever else it holds; all other values are
literals. -/
def ofJson (v : Json) : Operand :=
  match v.member? "path" with
  | some (.str p) => .path p
  | _ => .literal v

/-- Writes an operand. -/
def toJson : Operand → Json
  | .path p => .obj [("path", .str p)]
  | .literal v => v

/-- The path that an operand is, if it is one. A condition row fills its box for a path with it. -/
def path? : Operand → Option String
  | .path p => some p
  | .literal _ => none

/-- The literal that an operand is, if it is one. A condition row fills its box for a value with it.
-/
def literal? : Operand → Option Json
  | .path _ => none
  | .literal v => some v

/-- Equality, with literals compared as values. -/
def same : Operand → Operand → Bool
  | .path p, .path q => p == q
  | .literal v, .literal w => v.same w
  | _, _ => false

end Operand

/-- A comparison of the value at a path: the leaf of a rule's tree. An operator without an operand
has no right side. -/
structure Condition where
  /-- The name of the operator. -/
  op : String
  /-- The path of the left side. -/
  path : String
  /-- The right side, if there is one. -/
  right : Option Operand := none
deriving Inhabited

namespace Condition

/-- Reads a comparison from the members of an object. The reading does not fail: a path or an
operator that is missing or no text is empty, and a right side of `null` counts as none. -/
def ofMembers (o : Json.Object) : Condition where
  op := ((OrderedMap.get? o "op").bind Json.str?).getD ""
  path := (((OrderedMap.get? o "left").bind (·.member? "path")).bind Json.str?).getD ""
  right := ((OrderedMap.get? o "right").filter fun v => !v.isNull).map Operand.ofJson

/-- Reads a comparison from an object; a value of any other kind is refused, unlike a part of a
tree. -/
def ofJson? (v : Json) : Option Condition := v.obj?.map ofMembers

/-- What is said of a value that is no object where a comparison is to be read. -/
def notAnObject (v : Json) : String := "expected a condition object, found " ++ v.compact

/-- Writes a comparison. A right side that is missing is left out and not written as `null`. -/
def toJson (c : Condition) : Json :=
  .obj ([("op", .str c.op), ("left", .obj [("path", .str c.path)])]
    ++ (c.right.map fun r => ("right", r.toJson)).toList)

/-- Equality, with literals compared as values. -/
def same (a b : Condition) : Bool :=
  a.op == b.op && a.path == b.path &&
    match a.right, b.right with
    | none, none => true
    | some x, some y => x.same y
    | _, _ => false

end Condition

/-- A part of a group. The names of aggregators and what is not recognized are kept as they came, so
that neither is lost when a rule is read and written again. -/
inductive Node where
  /-- A comparison. -/
  | condition (c : Condition)
  /-- A group, with the name of its aggregator as it was given. -/
  | group (op : String) (args : List Node)
  /-- Anything else. -/
  | unrecognized (v : Json)
deriving Inhabited

/-- The condition of a rule: a group at the root, with the name of its aggregator as it was given.
Unlike a part, the root is never a comparison by itself. -/
structure Expression where
  /-- The name of the aggregator. -/
  op : String
  /-- The parts. -/
  args : List Node
deriving Inhabited

namespace Node

/-- The name of the aggregator that the members of a group give, and `and` if they give none or one
that is no text. -/
def groupOp (o : Json.Object) : String := ((OrderedMap.get? o "op").bind Json.str?).getD "and"

mutual

/-- Reads a part of a group. An object with a left side and an operator is a comparison, another
with a list of arguments is a group. -/
def ofJson : Json → Node
  | .obj members =>
    if OrderedMap.contains members "left" && OrderedMap.contains members "op" then
      .condition (Condition.ofMembers members)
    else
      match argsOfMembers? members with
      | some args => .group (groupOp members) args
      | none => .unrecognized (.obj members)
  | v => .unrecognized v

/-- The arguments that the members of an object give, if there is a list of them. The first member
with the name `args` decides (`Node.argsOfMembers?_eq`); the recursion is spelled out so that it
goes down the value. -/
def argsOfMembers? : List (String × Json) → Option (List Node)
  | [] => none
  | (name, v) :: rest => if name = "args" then listOfJson? v else argsOfMembers? rest

/-- Reads a list of parts. -/
def listOfJson? : Json → Option (List Node)
  | .arr items => some (listOfItems items)
  | _ => none

/-- Reads each of a list of parts. -/
def listOfItems : List Json → List Node
  | [] => []
  | v :: rest => ofJson v :: listOfItems rest

end

mutual

/-- Writes a part of a group. What was not recognized is written as it was read. -/
def toJson : Node → Json
  | .condition c => c.toJson
  | .group op args => .obj [("op", .str op), ("args", .arr (listToJson args))]
  | .unrecognized v => v

/-- Writes a list of parts. -/
def listToJson : List Node → List Json
  | [] => []
  | n :: rest => toJson n :: listToJson rest

end

mutual

/-- Equality, with literals and what is not recognized compared as values. -/
def same : Node → Node → Bool
  | .condition a, .condition b => a.same b
  | .group op args, .group op' args' => op == op' && sameList args args'
  | .unrecognized v, .unrecognized w => v.same w
  | _, _ => false

/-- Equality of lists of parts. -/
def sameList : List Node → List Node → Bool
  | [], [] => true
  | a :: as, b :: bs => same a b && sameList as bs
  | _, _ => false

end

/-- Whether a part is a group. -/
def isGroup : Node → Bool
  | .group _ _ => true
  | _ => false

end Node

namespace Expression

/-- The expression without parts, which is what an expression that cannot be read is taken for. -/
def empty : Expression := ⟨"and", []⟩

/-- A single group of comparisons: what a form says with its list of rows and its one aggregator. -/
def flat (aggregator : Aggregator) (conditions : List Condition) : Expression :=
  ⟨aggregator.name, conditions.map .condition⟩

/-- The aggregator of the root. -/
def aggregator (e : Expression) : Aggregator := .ofText e.op

/-- Whether no part is a group, so that a form can show the whole expression as its rows. -/
def isFlat (e : Expression) : Bool := e.args.all fun n => !n.isGroup

/-- Reads an expression. A value that is no object is read as the expression without parts, so that
a rule with a damaged condition can still be opened. -/
def ofJson : Json → Expression
  | .obj members => ⟨Node.groupOp members, (Node.argsOfMembers? members).getD []⟩
  | _ => empty

/-- Writes an expression. -/
def toJson (e : Expression) : Json :=
  .obj [("op", .str e.op), ("args", .arr (Node.listToJson e.args))]

/-- Equality, with literals and what is not recognized compared as values. -/
def same (a b : Expression) : Bool := a.op == b.op && Node.sameList a.args b.args

end Expression

end RuleEditor
