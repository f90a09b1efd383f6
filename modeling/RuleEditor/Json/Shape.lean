import RuleEditor.Json.Raw

/-!
# Records in text

A record is a JSON object whose members have fixed names, or the list of their values in the order
of those names. Where the text of a record is read, members that the record does not have are passed
over whatever they hold, so that neither the range of a number nor the depth of nesting matters in
them; a member that it has may not be repeated. Elsewhere a repeated member is no fault, and the
last one counts.

A text is read from its beginning to its end or to the first fault. What stands before the fault has
been read all the same, which matters to readers that count what they read.

## Main definitions

* `Json.Shape` — what is expected at a place in a text.
* `Json.Raw.shaped?` — the value of a tree that is read as a shape, without the members passed over.
* `Json.parseAs?` — the value of a text that is read as a shape.
* `Json.Raw.beforeFault`, `Json.parseBeforeFault` — what is read of a record before the first fault.
-/

namespace RuleEditor.Json

/-- What is expected at a place in a text. A value of another form has to be a value all the same;
it is left to the reader of the value to refuse it. -/
inductive Shape where
  /-- Any value. -/
  | any
  /-- A record with members of these names, in order. -/
  | record (fields : List (String × Shape))
  /-- A record that also looks at its other members, so that they have to be values. -/
  | openRecord (fields : List (String × Shape))
  /-- An open record with more fields if the member `tag` has a value of a certain kind. Without
  them, members of their names are like any others. -/
  | taggedRecord (fields : List (String × Shape)) (tag : String) (selects : Json → Bool)
    (more : List (String × Shape))
  /-- A list. -/
  | list (item : Shape)
  /-- A word, which may be given as the only name of an object. -/
  | word

namespace Shape

/-- The fields of a record. -/
def fields : Shape → List (String × Shape)
  | .record fields => fields
  | .openRecord fields => fields
  | .taggedRecord fields _ _ _ => fields
  | _ => []

/-- The names of the fields of a record, in order. -/
def names (shape : Shape) : List String := OrderedMap.keys shape.fields

/-- The shape of the items of a list. -/
def item : Shape → Shape
  | .list item => item
  | _ => .any

/-- A record of members that may each be any value. -/
def ofNames (names : List String) : Shape := .record (names.map fun name => (name, .any))

end Shape

namespace Raw

/-- The names of the members that have one. -/
def memberNames (members : List (Option String × Raw)) : List String := members.filterMap Prod.fst

/-- The first member of a name. -/
def member? (members : List (Option String × Raw)) (name : String) : Option Raw :=
  (members.find? fun member => member.1 == some name).map Prod.snd

/-- The shape of an object with the given members: it is settled whether a tagged record has its
additional fields. The tag may stand anywhere among the members. -/
def settle (depth : Nat) (members : List (Option String × Raw)) : Shape → Shape
  | .taggedRecord fields tag selects more =>
    if ((member? members tag).bind (value? depth)).any selects then .openRecord (fields ++ more)
    else .openRecord fields
  | shape => shape

/-- Whether members may stand in an object of a shape: known names are not repeated, and a word
stands alone. -/
def fits (shape : Shape) (members : List (Option String × Raw)) : Bool :=
  match shape with
  | .word => members.length == 1
  | shape => decide ((memberNames members).filter (shape.names.contains ·)).Nodup

mutual

/-- The value of a tree that is read as a shape, with lists and objects nested at most `depth`
deep. -/
def shaped? (depth : Nat) (shape : Shape) : Raw → Option Json
  | .arr items =>
    match depth with
    | 0 => none
    | depth + 1 =>
      match shape with
      | .record fields | .openRecord fields => (shapedFields? depth fields items).map .arr
      | .list item => (shapedItems? depth item items).map .arr
      | _ => (itemValues? depth items).map .arr
  | .obj members =>
    match depth with
    | 0 => none
    | depth + 1 =>
      let shape := settle depth members shape
      if fits shape members then
        (shapedMembers? depth shape members).map fun ms => .obj (OrderedMap.ofList ms)
      else none
  | v => value? depth v

/-- The values of a list of items of one shape. -/
def shapedItems? (depth : Nat) (item : Shape) : List Raw → Option (List Json)
  | [] => some []
  | v :: rest => do
    let v ← shaped? depth item v
    let rest ← shapedItems? depth item rest
    return v :: rest

/-- The values of the fields of a record that is given as a list. There may be fewer of them than
the record has, but not more. -/
def shapedFields? (depth : Nat) (fields : List (String × Shape)) : List Raw → Option (List Json)
  | [] => some []
  | v :: rest =>
    match fields with
    | [] => none
    | (_, shape) :: fields => do
      let v ← shaped? depth shape v
      let rest ← shapedFields? depth fields rest
      return v :: rest

/-- The members of an object that is read as a shape. -/
def shapedMembers? (depth : Nat) (shape : Shape) :
    List (Option String × Raw) → Option (List (String × Json))
  | [] => some []
  | (name, v) :: rest => do
    let name ← name
    let others ← shapedMembers? depth shape rest
    match shape, OrderedMap.get? shape.fields name with
    | .record _, none => return others
    | _, known =>
      let v ← shaped? depth (known.getD .any) v
      return (name, v) :: others

end

/-! ## Up to the first fault -/

/-- The items of a list of one shape before the first fault. An item is read as a whole or not at
all. -/
def itemsBeforeFault (depth : Nat) (item : Shape) : List Raw → List Json
  | [] => []
  | v :: rest =>
    match shaped? depth item v with
    | some v => v :: itemsBeforeFault depth item rest
    | none => []

/-- The part of a field's value before the first fault, if there is a fault. Only lists are read in
parts. -/
def fieldBeforeFault? (depth : Nat) : Shape → Raw → Option Json
  | .list item, .arr items =>
    match depth with
    | 0 => none
    | depth + 1 => some (.arr (itemsBeforeFault depth item items))
  | _, _ => none

/-- The fields before the first fault of a record that is given as a list. -/
def fieldsBeforeFault (depth : Nat) : List (String × Shape) → List Raw → List Json
  | (_, shape) :: fields, v :: rest =>
    match shaped? depth shape v with
    | some v => v :: fieldsBeforeFault depth fields rest
    | none => (fieldBeforeFault? depth shape v).toList
  | _, _ => []

/-- The members before the first fault of a record, of whose names `seen` are taken. A fault in a
member that is passed over is one that the text has, which shows behind it. -/
def membersBeforeFault (depth : Nat) (fields : List (String × Shape)) (seen : List String) :
    List (Option String × Raw) → List (String × Json)
  | [] => []
  | (none, _) :: _ => []
  | (some name, v) :: rest =>
    match OrderedMap.get? fields name with
    | none => membersBeforeFault depth fields seen rest
    | some shape =>
      if seen.contains name then []
      else
        match shaped? depth shape v with
        | some v => (name, v) :: membersBeforeFault depth fields (name :: seen) rest
        | none => (fieldBeforeFault? depth shape v).toList.map (name, ·)

/-- What is read of a record before the first fault. -/
def beforeFault (depth : Nat) (fields : List (String × Shape)) : Raw → Json
  | .arr items =>
    match depth with
    | 0 => .null
    | depth + 1 => .arr (fieldsBeforeFault depth fields items)
  | .obj members =>
    match depth with
    | 0 => .null
    | depth + 1 => .obj (membersBeforeFault depth fields [] members)
  | _ => .null

end Raw

/-- The value of a text that is read as a shape. The text has to be JSON throughout, also where
members are passed over. -/
def parseAs? (shape : Shape) (s : String) : Option Json :=
  (Raw.parse? s).bind (Raw.shaped? Raw.maxDepth shape)

/-- What is read of a text as a record before the first fault. -/
def parseBeforeFault (shape : Shape) (s : String) : Json :=
  (Raw.parse s).1.beforeFault Raw.maxDepth shape.fields

end RuleEditor.Json
