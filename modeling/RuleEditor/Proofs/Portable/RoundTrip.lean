import RuleEditor.Expression.Meaning
import RuleEditor.Proofs.Portable.Import

/-!
# Exporting and importing

A portable document holds the comparisons of a rule as one list. Importing an exported document
gives the rule back with its nesting gone, and it refuses the documents of rules that lack
something. This module says exactly which rules come back, and what of them does.

## Main definitions

* `Operand.carried?`, `Condition.carried`, `Rule.carried` — what a document keeps of a right side,
  of a comparison and of a rule.
* `Rule.IsPortable` — the rules whose documents can be imported.

## Main results

* `Portable.importList_map_iff` — importing the written items of a list.
* `Portable.importJson_toDocument` — the document of a rule is imported exactly if the rule is
  portable, and what comes back is what the document keeps of it.
-/

set_option relaxedAutoImplicit false
set_option autoImplicit false

namespace RuleEditor

/-! ## What a document keeps -/

/-- What a document keeps of a right side. A path that is blank is not read back, and neither is the
literal `null`; all else is kept, also a literal that looks like a path, which is written under
`value` and not read as an operand again. -/
def Operand.carried? : Operand → Option Operand
  | .path p => if Text.isBlank p then none else some (.path p)
  | .literal v => if v.isNull then none else some (.literal v)

/-- What a document keeps of a comparison. Its path and operator are written as they are; the right
side may get lost. -/
def Condition.carried (c : Condition) : Condition :=
  { c with right := c.right.bind Operand.carried? }

/-- What a document keeps of a rule: a blank description is lost, and the comparisons stand in a
single group under the aggregator of the root. Name, event, priority and actions are kept as they
are. -/
def Rule.carried (r : Rule) : Rule :=
  { r with
    description := r.description.filter fun s => !Text.isBlank s
    expression :=
      .flat r.expression.aggregator (r.expression.flatten.conditions.map Condition.carried) }

/-- A rule with at least one comparison and one action, in which each comparison has a path and an
operator and each action a type. These are the requirements of importing, asked of the rule instead
of its document. -/
structure Rule.IsPortable (r : Rule) : Prop where
  /-- There is a comparison. -/
  conditions_ne_nil : r.expression.flatten.conditions ≠ []
  /-- Each comparison has a path. -/
  path : ∀ c ∈ r.expression.flatten.conditions, Text.isBlank c.path = false
  /-- Each comparison has an operator. -/
  op : ∀ c ∈ r.expression.flatten.conditions, Text.isBlank c.op = false
  /-- There is an action. -/
  actions_ne_nil : r.actions ≠ []
  /-- Each action has a type. -/
  type : ∀ a ∈ r.actions, Text.isBlank a.type = false

/-- Whether a rule is portable is settled by going through its comparisons and actions. -/
instance (r : Rule) : Decidable r.IsPortable :=
  decidable_of_iff
    (r.expression.flatten.conditions ≠ [] ∧
      (∀ c ∈ r.expression.flatten.conditions, Text.isBlank c.path = false) ∧
      (∀ c ∈ r.expression.flatten.conditions, Text.isBlank c.op = false) ∧
      r.actions ≠ [] ∧ ∀ a ∈ r.actions, Text.isBlank a.type = false)
    ⟨fun ⟨hne, hpath, hop, hne', htype⟩ => ⟨hne, hpath, hop, hne', htype⟩,
      fun ⟨hne, hpath, hop, hne', htype⟩ => ⟨hne, hpath, hop, hne', htype⟩⟩

namespace Portable

/-! ## Lists -/

/-- The written items of a list are read exactly if each of them is. It lifts the round trip of one
item to a list of them. -/
lemma forall₂_map_iff {α β : Type} {reads : Json → β → Prop} {write : α → Json} {good : α → Prop}
    {kept : α → β} (hread : ∀ a b, reads (write a) b ↔ good a ∧ b = kept a) (as : List α)
    (bs : List β) :
    List.Forall₂ reads (as.map write) bs ↔ (∀ a ∈ as, good a) ∧ bs = as.map kept := by
  induction as generalizing bs with
  | nil => simp
  | cons a rest ih =>
    rw [List.map_cons, List.forall₂_cons_left_iff]
    constructor
    · rintro ⟨b, more, hhead, htail, rfl⟩
      obtain ⟨hgood, rfl⟩ := (hread a b).1 hhead
      obtain ⟨hall, rfl⟩ := (ih more).1 htail
      exact ⟨List.forall_mem_cons.2 ⟨hgood, hall⟩, rfl⟩
    · rintro ⟨hall, rfl⟩
      obtain ⟨hgood, hrest⟩ := List.forall_mem_cons.1 hall
      exact ⟨kept a, rest.map kept, (hread a _).2 ⟨hgood, rfl⟩, (ih _).2 ⟨hrest, rfl⟩, rfl⟩

/-- A written list is imported exactly if it has items and each of them is read. What comes back is
what is kept of the items, in their order. Comparisons and actions are two instances. -/
theorem importList_map_iff {α β : Type} {importItem : Nat → Json → Except ImportError β}
    {reads : Json → β → Prop} {write : α → Json} {good : α → Prop} {kept : α → β}
    (hitem : ∀ index v b, importItem index v = .ok b ↔ reads v b)
    (hread : ∀ a b, reads (write a) b ↔ good a ∧ b = kept a) {missing : ImportError}
    {o : Json.Object} {name : String} {as : List α}
    (hmember : OrderedMap.get? o name = some (.arr (as.map write))) (bs : List β) :
    importList importItem missing o name = .ok bs ↔
      as ≠ [] ∧ (∀ a ∈ as, good a) ∧ bs = as.map kept := by
  rw [importList_eq_ok_iff hitem, hmember]
  simp only [Option.some.injEq, Json.arr.injEq, exists_eq_left', forall₂_map_iff hread, ne_eq,
    List.map_eq_nil_iff]

/-! ## Comparisons and actions -/

/-- A member that holds a text is read unless the text is blank. -/
lemma nonBlankMember?_eq_ite {o : Json.Object} {name s : String}
    (hmember : OrderedMap.get? o name = some (.str s)) :
    nonBlankMember? o name = if Text.isBlank s then none else some s := by
  cases hblank : Text.isBlank s <;>
    simp [nonBlankMember?, hmember, Json.str?, Option.filter, hblank]

/-- The right side that is read from a written comparison. The document writes it under `value` or
`comparePath` only, so that the two other names play no part. -/
lemma rightSide?_toJson (c : RuleEditor.Condition) (o : Json.Object)
    (ho : (Condition.ofCondition c).toJson = .obj o) :
    rightSide? o = c.right.bind Operand.carried? := by
  obtain ⟨op, path, right⟩ := c
  simp only [Condition.toJson, Json.obj.injEq] at ho
  subst ho
  cases right with
  | none =>
    simp [rightSide?, nonBlankMember?, presentMember?, Condition.ofCondition, Json.memberIf,
      OrderedMap.get?]
  | some operand =>
    cases operand with
    | path p =>
      cases hp : Text.isBlank p <;>
        simp [rightSide?, nonBlankMember?, presentMember?, Condition.ofCondition, Json.memberIf,
          OrderedMap.get?, Operand.literal?, Operand.path?, Operand.carried?, Json.str?, hp]
    | literal v =>
      cases hv : v.isNull <;>
        simp [rightSide?, nonBlankMember?, presentMember?, Condition.ofCondition, Json.memberIf,
          OrderedMap.get?, Operand.literal?, Operand.path?, Operand.carried?, hv]

/-- A written comparison is read exactly if it has a path and an operator. -/
lemma readsCondition_toJson_iff (c c' : RuleEditor.Condition) :
    ReadsCondition (Condition.ofCondition c).toJson c' ↔
      (Text.isBlank c.path = false ∧ Text.isBlank c.op = false) ∧ c' = c.carried := by
  obtain ⟨o, ho⟩ : ∃ o, (Condition.ofCondition c).toJson = .obj o := ⟨_, rfl⟩
  have hright := rightSide?_toJson c o ho
  have hpath : OrderedMap.get? o "path" = some (.str c.path) := by
    simp only [Condition.toJson, Json.obj.injEq] at ho
    simp [← ho, OrderedMap.get?, Condition.ofCondition]
  have hop : OrderedMap.get? o "operator" = some (.str c.op) := by
    simp only [Condition.toJson, Json.obj.injEq] at ho
    simp [← ho, OrderedMap.get?, Condition.ofCondition]
  obtain ⟨op', path', right'⟩ := c'
  simp only [ReadsCondition, ho, Json.obj.injEq, exists_eq_left', nonBlankMember?_eq_ite hpath,
    nonBlankMember?_eq_ite hop, hright, Condition.carried, RuleEditor.Condition.mk.injEq]
  cases Text.isBlank c.path with
  | true => simp
  | false =>
    cases Text.isBlank c.op with
    | true => simp
    | false => simp [and_left_comm, eq_comm]

/-- A written action is read exactly if it has a type. -/
lemma readsAction_toJson_iff (a a' : StoredAction) :
    ReadsAction (Action.mk a.type a.params).toJson a' ↔
      Text.isBlank a.type = false ∧ a' = a := by
  have htype : OrderedMap.get? [("type", .str a.type), ("params", .obj a.params)] "type"
      = some (Json.str a.type) := by simp [OrderedMap.get?]
  obtain ⟨type, params⟩ := a
  obtain ⟨type', params'⟩ := a'
  simp only [ReadsAction, Action.toJson, Json.obj.injEq, exists_eq_left',
    nonBlankMember?_eq_ite htype, StoredAction.mk.injEq]
  cases Text.isBlank type with
  | true => simp
  | false => simp [OrderedMap.get?, Json.obj?, eq_comm]

/-! ## Rules -/

/-- The members of a rule's document, spelled out so that each of them can be looked up. -/
def membersOf (r : Rule) : Json.Object :=
  [("name", .str r.name), ("description", .str (r.description.getD "")), ("event", .str r.event),
    ("priority", .ofInt64 r.priority), ("active", .bool r.active),
    ("aggregator", .str r.expression.aggregator.name),
    ("conditions", .arr (r.expression.flatten.conditions.map fun c =>
      (Condition.ofCondition c).toJson)),
    ("actions", .arr (r.actions.map fun a => (Action.mk a.type a.params).toJson))]

/-- A document is an object with these members. -/
lemma toJson_toDocument (r : Rule) : r.toDocument.toJson = .obj (membersOf r) := by
  simp [Rule.toDocument, Document.toJson, membersOf, List.map_map, Function.comp_def]

/-- The rule that the members of a document describe beside its comparisons and actions. -/
lemma ruleOfMembers_membersOf (r : Rule) :
    ruleOfMembers (membersOf r) (r.expression.flatten.conditions.map Condition.carried) r.actions
      = r.carried := by
  have hdescription : (some (r.description.getD "")).filter (fun s => !Text.isBlank s)
      = r.description.filter fun s => !Text.isBlank s := by
    cases r.description with
    | none => rfl
    | some s => rfl
  simp [ruleOfMembers, membersOf, textMember, OrderedMap.get?, Json.str?, hdescription,
    Rule.carried]

/-- The comparisons in a document are imported exactly if there are any and all of them have a path
and an operator. -/
lemma importList_conditions_iff (r : Rule) (bs : List RuleEditor.Condition) :
    importList importCondition .noConditions (membersOf r) "conditions" = .ok bs ↔
      r.expression.flatten.conditions ≠ [] ∧
        (∀ c ∈ r.expression.flatten.conditions,
          Text.isBlank c.path = false ∧ Text.isBlank c.op = false) ∧
        bs = r.expression.flatten.conditions.map Condition.carried :=
  importList_map_iff importCondition_eq_ok_iff readsCondition_toJson_iff
    (by simp [membersOf, OrderedMap.get?]) bs

/-- The actions in a document are imported exactly if there are any and all of them have a type. -/
lemma importList_actions_iff (r : Rule) (bs : List StoredAction) :
    importList importAction .noActions (membersOf r) "actions" = .ok bs ↔
      r.actions ≠ [] ∧ (∀ a ∈ r.actions, Text.isBlank a.type = false) ∧ bs = r.actions := by
  have h : importList importAction .noActions (membersOf r) "actions" = .ok bs ↔
      r.actions ≠ [] ∧ (∀ a ∈ r.actions, Text.isBlank a.type = false) ∧
        bs = r.actions.map fun a => a :=
    importList_map_iff importAction_eq_ok_iff readsAction_toJson_iff
      (by simp [membersOf, OrderedMap.get?]) bs
  rwa [List.map_id'] at h

/-- What importing the document of a rule gives: what the document keeps of the rule, provided that
the rule is portable.

**Proof sketch.** Both lists of a document are imported exactly if they have items and all of them
are good (`importList_map_iff`), which by the lemmas on comparisons and actions is what portable
means; all other members are read without fail. -/
lemma importJson_toDocument_eq_ok_iff (r r' : Rule) :
    importJson r.toDocument.toJson = .ok r' ↔ r.IsPortable ∧ r' = r.carried := by
  rw [toJson_toDocument, importJson_eq_ok_iff]
  constructor
  · rintro ⟨o, conditions, actions, ho, hconditions, hactions, rfl⟩
    obtain rfl := Json.obj.inj ho
    obtain ⟨hne, hall, rfl⟩ := (importList_conditions_iff r conditions).1 hconditions
    obtain ⟨hne', hall', rfl⟩ := (importList_actions_iff r actions).1 hactions
    refine ⟨⟨hne, ?_, ?_, hne', hall'⟩, ruleOfMembers_membersOf r⟩
    · exact fun c hc => (hall c hc).1
    · exact fun c hc => (hall c hc).2
  · rintro ⟨h, rfl⟩
    refine ⟨membersOf r, _, _, rfl, (importList_conditions_iff r _).2 ⟨?_, ?_, rfl⟩,
      (importList_actions_iff r _).2 ⟨h.actions_ne_nil, h.type, rfl⟩, ruleOfMembers_membersOf r⟩
    · exact h.conditions_ne_nil
    · exact fun c hc => ⟨h.path c hc, h.op c hc⟩

/-- **Exporting and importing.** The document of a rule is imported exactly if the rule is portable,
and the rule that comes back is what the document keeps of it. So a rule that is not portable is
exported all the same, and its document is refused on import. -/
theorem importJson_toDocument (r : Rule) :
    (importJson r.toDocument.toJson).toOption = if r.IsPortable then some r.carried else none := by
  have hiff := importJson_toDocument_eq_ok_iff r
  split
  · next hportable =>
    rw [(hiff r.carried).2 ⟨hportable, rfl⟩]
    rfl
  · next hnot =>
    cases himport : importJson r.toDocument.toJson with
    | error e => rfl
    | ok r' => exact absurd ((hiff r').1 himport).1 hnot

end Portable

end RuleEditor
