import RuleEditor.Proofs.Form.ActionRow.Stored
import RuleEditor.Proofs.Form.Validation

/-!
# Rules of accepted forms

Validation looks at a form as it was typed, and saving trims texts, reads values under the kinds of
their parameters and writes one parameter over another of the same name. What validation asks for is
there after all of that: the rule of an accepted form lacks nothing, and no required parameter of an
action of a known type is left with the empty value of its kind.

## Main definitions

* `Rule.IsWellFormed` — the name, the event, the conditions and the types of the actions are there.
* `StoredAction.HoldsRequired` — a saved action holds what is required of its row.

## Main results

* `Catalog.Param.ne_emptyValue_of_storedForm?` — what does for a required parameter is not stored as
  its empty value, under whatever kind it is stored.
* `ActionRow.holdsRequired_toStored` — a complete row saves what is required of it.
* `Form.compile_isWellFormed` — the rule of an accepted form is well-formed.
-/

set_option relaxedAutoImplicit false
set_option autoImplicit false

namespace RuleEditor

/-! ## Conditions -/

/-- A right side with something to compare with: neither a blank path nor a blank text nor `null`.
Lists and objects count as something, even without items or members. -/
def Operand.IsPresent : Operand → Prop
  | .path p => Text.isBlank p = false
  | .literal .null => False
  | .literal (.str s) => Text.isBlank s = false
  | .literal _ => True

/-- A condition with a tidy path and a right side that is there. Its operator may be any text. -/
structure Condition.IsWellFormed (c : Condition) : Prop where
  /-- The path is trimmed and not empty. -/
  path : Text.IsTidy c.path
  /-- There is a right side, with something to compare with. -/
  right : ∃ operand, c.right = some operand ∧ operand.IsPresent

/-- A text that is not blank is read as a value to compare with, whatever its type. -/
lemma ValueType.isPresent_read {s : String} (h : Text.isBlank s = false) (t : ValueType) :
    (Operand.literal (t.read s)).IsPresent := by
  cases t with
  | string => exact h
  | boolean => trivial
  | number =>
    unfold read
    cases number? (Text.trimChars s.toList) with
    | some n => trivial
    | none => exact h

/-- The condition of a complete row is well-formed. -/
lemma ConditionRow.isWellFormed_toCondition {r : ConditionRow} (h : r.IsComplete) :
    r.toCondition.IsWellFormed := by
  obtain ⟨hpath, hright⟩ := h
  refine ⟨Text.isTidy_trim hpath, r.operand, rfl, ?_⟩
  unfold operand
  cases hreferenced : r.referencedPath? with
  | some p =>
    obtain ⟨s, -, hs⟩ := Option.bind_eq_some_iff.1 hreferenced
    obtain ⟨hblank, rfl⟩ := Text.nonBlank?_eq_some_iff.1 hs
    exact (Text.isBlank_trim s).trans hblank
  | none =>
    have hvalue : Text.isBlank r.value = false :=
      hright.resolve_right fun hne => hne hreferenced
    exact ValueType.isPresent_read hvalue r.valueType

/-! ## Parameters -/

/-- What is saved from a text is not empty, and it is no truth value. -/
lemma Catalog.ParamKind.storedText?_ne_empty {kind : ParamKind} {s : String} {v : Json}
    (hkind : kind ≠ .boolean) (h : kind.storedText? s = some v) :
    v ≠ .str "" ∧ v ≠ .arr [] ∧ ∀ b, v ≠ .bool b := by
  rcases ParamKind.isCanonical_of_storedText? hkind h with hcanonical | ⟨-, rfl⟩
  · refine ⟨?_, ?_, ?_⟩
    · rintro rfl
      obtain ⟨-, -, -, hne, -⟩ := hcanonical
      exact hne rfl
    · rintro rfl
      obtain ⟨-, hne, -⟩ := hcanonical
      exact hne rfl
    · rintro b rfl
      exact hkind hcanonical
  · exact ⟨Json.noConfusion, Json.noConfusion, fun b => Json.noConfusion⟩

namespace Catalog.Param

/-- What a parameter that is no switch stores is not empty, and it is no truth value. -/
lemma storedForm?_ne_empty {q : Param} {value : Option EditValue} {v : Json}
    (hkind : q.kind ≠ .boolean) (h : q.storedForm? value = some v) :
    v ≠ .str "" ∧ v ≠ .arr [] ∧ ∀ b, v ≠ .bool b := by
  cases value with
  | none =>
    rw [storedForm?_none hkind] at h
    exact absurd h (by simp)
  | some edited =>
    cases edited with
    | text s =>
      rw [storedForm?_text hkind] at h
      exact ParamKind.storedText?_ne_empty hkind h
    | flag b =>
      rw [storedForm?_flag hkind] at h
      obtain rfl := Option.some.inj h
      refine ⟨?_, Json.noConfusion, fun b => Json.noConfusion⟩
      cases b <;> simp [boolText]
    | object members =>
      obtain rfl := eq_obj_of_storedForm?_object hkind h
      exact ⟨Json.noConfusion, Json.noConfusion, fun b => Json.noConfusion⟩

/-- **What does for a required parameter is not stored as its empty value**, not even by another
parameter `q` of the same name and of any kind. Objects are the exception: the object without
members does for a required parameter and is its empty value. -/
theorem ne_emptyValue_of_storedForm? {p q : Param} {value : Option EditValue} {v : Json}
    (hmissing : p.isMissing value = false) (hobject : p.kind ≠ .object)
    (h : q.storedForm? value = some v) : v ≠ p.kind.emptyValue := by
  obtain ⟨info, kind⟩ := p
  by_cases hkind : q.kind = .boolean
  · -- only a switch has a truth value as its empty one, and then the value is on
    rw [storedForm?_of_boolean hkind] at h
    obtain rfl := Option.some.inj h
    cases kind with
    | boolean =>
      have hon : (value.map EditValue.toBool).getD false = true := by
        simpa [isMissing] using hmissing
      rw [hon]
      simp [ParamKind.emptyValue]
    | _ => exact Json.noConfusion
  · obtain ⟨htext, hlist, hbool⟩ := storedForm?_ne_empty hkind h
    cases kind with
    | object => exact absurd rfl hobject
    | stringArray => exact hlist
    | boolean => exact hbool false
    | string | number | integer | variant => exact htext

/-- A value that does for a required parameter and yet is not stored is one of an object. -/
lemma kind_eq_object_of_storedForm?_eq_none {q : Param} {value : Option EditValue}
    (hmissing : q.isMissing value = false) (hvariant : q.kind.isVariant = false)
    (h : q.storedForm? value = none) : q.kind = .object := by
  obtain ⟨info, kind⟩ := q
  cases kind with
  | object => rfl
  | variant => exact absurd hvariant (by simp [ParamKind.isVariant])
  | boolean =>
    rw [storedForm?_of_boolean rfl] at h
    exact absurd h (by simp)
  | string | number | integer | stringArray =>
    unfold isMissing at hmissing
    rw [h] at hmissing
    exact absurd hmissing (by simp)

end Catalog.Param

/-! ## Actions -/

/-- A saved action holds what is required of its row: if its type is known, each required parameter
that is active has a value other than the empty one of its kind. Of objects nothing is asked. Which
parameters are active is told from the row, not from what was saved of it. -/
def StoredAction.HoldsRequired (catalog : Catalog) (row : ActionRow) (a : StoredAction) : Prop :=
  ∀ d, catalog.action? a.type = some d → ∀ p ∈ d.active row.params, p.required = true →
    p.kind ≠ .object → ∃ v, OrderedMap.get? a.params p.name = some v ∧ v ≠ p.kind.emptyValue

/-- **A complete row saves what is required of it**, even if one name is declared by several active
parameters.

**Proof sketch.** Under the name of a required parameter the last declaration counts that saves
anything. If it saves a stored form, that is not empty, whatever the kinds of the two declarations.
If it saves the empty value of its own kind, it is required and complete itself, so that it is one
of objects. -/
theorem ActionRow.holdsRequired_toStored {catalog : Catalog} {r : ActionRow}
    (h : r.IsComplete catalog) : (r.toStored catalog).HoldsRequired catalog r := by
  intro d hd p hp hrequired hobject
  rw [type_toStored] at hd
  have hcomplete : ∀ q ∈ d.active r.params, q.required = true →
      q.isMissing (OrderedMap.get? r.params q.name) = false := by
    simpa only [ActionRow.IsComplete, hd] using h
  have hparams : (r.toStored catalog).params = storedKnown d r.params := by
    simp only [toStored, hd]
  rw [hparams, Catalog.Action.get?_storedKnown]
  cases hsaved : Catalog.Param.savedByLast? (d.active r.params) p.name
      (OrderedMap.get? r.params p.name) with
  | none =>
    have hnone := Catalog.Param.savedByLast?_eq_none_iff.1 hsaved p hp rfl
    rw [(Catalog.Param.saved?_eq_none_iff.1 hnone).1] at hrequired
    exact absurd hrequired (by simp)
  | some v =>
    refine ⟨v, rfl, ?_⟩
    obtain ⟨q, hq, hname, hv⟩ := Catalog.Param.exists_of_savedByLast? hsaved
    rcases Catalog.Param.saved?_eq_some_iff.1 hv with hstored | ⟨hnone, hrequired', rfl⟩
    · exact Catalog.Param.ne_emptyValue_of_storedForm? (hcomplete p hp hrequired) hobject hstored
    · have hmissing : q.isMissing (OrderedMap.get? r.params p.name) = false := by
        rw [← hname]
        exact hcomplete q hq hrequired'
      have hvariant := Catalog.Param.isVariant_of_mem_active r.params q d.params hq
      rw [Catalog.Param.kind_eq_object_of_storedForm?_eq_none hmissing hvariant hnone]
      cases hkind : p.kind with
      | object => exact absurd hkind hobject
      | _ => exact Json.noConfusion

/-! ## Rules -/

/-- A rule in which nothing is missing: what validation asks of a form, said of the rule that is
saved. All texts in it are tidy, that is trimmed and not empty. -/
structure Rule.IsWellFormed (r : Rule) : Prop where
  /-- The rule has a name. -/
  name : Text.IsTidy r.name
  /-- The rule has an event. -/
  event : Text.IsTidy r.event
  /-- The expression is a single group of well-formed conditions, and there is one. -/
  expression : ∃ aggregator conditions, r.expression = .flat aggregator conditions ∧
    conditions ≠ [] ∧ ∀ c ∈ conditions, c.IsWellFormed
  /-- There is an action. -/
  actions_ne_nil : r.actions ≠ []
  /-- Each action has a type. -/
  types : ∀ a ∈ r.actions, Text.IsTidy a.type

/-- The rule of a complete form is well-formed. -/
lemma Form.isWellFormed_toRule {events operators actions : Json} {f : Form}
    (h : f.IsComplete (.ofSections events operators actions)) :
    (f.toRule (.ofSections events operators actions)).IsWellFormed := by
  refine ⟨Text.isTidy_trim h.name, Text.isTidy_trim h.event, ?_, ?_, ?_⟩
  · refine ⟨f.aggregator, f.conditions.map ConditionRow.toCondition, rfl, ?_, ?_⟩
    · simpa using h.conditions_ne_nil
    · intro c hc
      obtain ⟨row, hrow, rfl⟩ := List.mem_map.1 hc
      exact ConditionRow.isWellFormed_toCondition (h.conditions row hrow)
  · simpa [toRule] using h.actions_ne_nil
  · intro a ha
    obtain ⟨row, hrow, rfl⟩ := List.mem_map.1 ha
    rw [ActionRow.type_toStored]
    exact Text.isTidy_trim (h.actions row hrow).isBlank_type

/-- **Accepted forms are saved as well-formed rules.** Under a catalog that was read from raw
sections, the rule of an accepted form is well-formed, and its actions hold what is required of the
rows, one by one.

**Proof sketch.** An accepted form is complete (`Form.compile_eq_ok_iff`). What a complete row of a
condition says is still there when it was read (`ConditionRow.isWellFormed_toCondition`), and what a
complete row of an action requires is saved (`ActionRow.holdsRequired_toStored`). -/
theorem Form.compile_isWellFormed {events operators actions : Json} {f : Form} {r : Rule}
    (h : f.compile (.ofSections events operators actions) = .ok r) :
    r.IsWellFormed ∧ List.Forall₂
      (StoredAction.HoldsRequired (.ofSections events operators actions)) f.actions r.actions := by
  obtain ⟨hcomplete, rfl⟩ := (compile_eq_ok_iff _ _ _).1 h
  refine ⟨isWellFormed_toRule hcomplete, ?_⟩
  refine List.forall₂_map_right_iff.2 (List.forall₂_same.2 fun row hrow => ?_)
  exact ActionRow.holdsRequired_toStored (hcomplete.actions row hrow)

/-- The actions of a catalog with one action, which needs a list of tags and, as long as the text of
that list is `true`, a switch of the same name. -/
def Form.sharedNameSection : Json :=
  .arr [.obj [("type", .str "tag"), ("params", .arr [
    .obj [("name", .str "tags"), ("kind", .str "list"), ("required", .bool true)],
    .obj [("name", .str "settings"), ("controller", .str "tags"), ("variants", .arr [
      .obj [("value", .str "true"), ("params", .arr [
        .obj [("name", .str "tags"), ("kind", .str "bool"), ("required", .bool true)]])]])]])]]

/-- A form whose action gives the list and the switch one value. -/
def Form.sharedName : Form where
  name := " r "
  event := "e"
  conditions := [{ path := " $.a", operator := "==", value := "x" }]
  actions := [{ id := "action-1", type := " tag", params := [("tags", .text "true")] }]

/-- The switch is saved over the list, and it is not the empty value of either. -/
theorem Form.compile_isWellFormed_sharedName :
    let catalog := Catalog.ofSections .null .null sharedNameSection
    let r := sharedName.toRule catalog
    sharedName.compile catalog = .ok r ∧
      r.actions.map StoredAction.params = [[("tags", .bool true)]] ∧
      r.IsWellFormed ∧
      List.Forall₂ (StoredAction.HoldsRequired catalog) sharedName.actions r.actions := by
  have h : sharedName.compile (.ofSections .null .null sharedNameSection) =
      .ok (sharedName.toRule (.ofSections .null .null sharedNameSection)) := by
    rfl
  exact ⟨h, rfl, compile_isWellFormed h⟩

end RuleEditor
