import RuleEditor.Proofs.Form.ActionRow.Stored

/-!
# The declarations by which stored values are opened

A stored value is opened by the first declaration of its name in the tree of its action, before any
controller has selected a variant. It is edited, checked and saved by the declaration that is
active. The two can be different declarations, since another variant may declare the same name; the
row then holds the value as the active declaration has it exactly if the kinds of the two edit the
value alike.

## Main definitions

* `Json.lineText` — the line in which a value is edited that has no form of its own.
* `Catalog.ParamKind.EditsAlike` — two kinds give a stored value the same edited form.

## Main results

* `Catalog.Param.editForm_eq_iff` — when two parameters edit a value in the same form.
* `ActionRow.get?_ofStored_eq_editForm_iff` — when a row holds a value as its active declaration has
  it.
-/

set_option relaxedAutoImplicit false
set_option autoImplicit false

namespace RuleEditor

/-! ## Edited forms -/

/-- The line in which a value is edited that is neither a switch nor an object with its members: a
list as its items with commas between them, and anything else as its text. -/
def Json.lineText : Json → String
  | .arr items => CommaList.join items
  | v => v.editText

/-- A value that is an object has members. -/
lemma Json.exists_eq_obj_of_isObj {v : Json} (h : v.isObj = true) :
    ∃ members, v = .obj members := by
  cases v with
  | obj members => exact ⟨members, rfl⟩
  | _ => exact absurd h (by simp [isObj, obj?])

namespace Catalog

/-- Parameters of the two kinds edit a stored value in the same form: both are switches or neither
is, and of an object also both keep the members or neither does. Kinds that edit alike may save
differently; what is compared is the value that the row holds. -/
def ParamKind.EditsAlike (kind kind' : ParamKind) (v : Json) : Prop :=
  (kind = .boolean ↔ kind' = .boolean) ∧ (v.isObj = true → (kind = .object ↔ kind' = .object))

namespace Param

variable {p q : Param} {v : Json}

/-- A switch edits a value as the truth value that it stands for. -/
lemma editForm_of_boolean (h : p.kind = .boolean) (v : Json) :
    p.editForm v = .flag v.strictBool := by
  unfold editForm
  rw [h]

/-- A parameter of the kind of objects edits an object as its members. -/
lemma editForm_of_object (h : p.kind = .object) (members : Json.Object) :
    p.editForm (.obj members) = .object members := by
  unfold editForm
  rw [h]

/-- All other values are edited in one line, whatever the kind. -/
lemma editForm_eq_text (hboolean : p.kind ≠ .boolean)
    (hobject : p.kind = .object → v.isObj = false) : p.editForm v = .text v.lineText := by
  obtain ⟨info, kind⟩ := p
  cases v with
  | obj members =>
    cases kind with
    | boolean => exact absurd rfl hboolean
    | object => exact absurd (hobject rfl) (by simp [Json.isObj, Json.obj?])
    | _ => rfl
  | _ =>
    cases kind with
    | boolean => exact absurd rfl hboolean
    | _ => rfl

/-- A parameter that is no switch edits nothing as one. -/
lemma editForm_ne_flag (h : p.kind ≠ .boolean) (v : Json) (b : Bool) :
    p.editForm v ≠ .flag b := by
  unfold editForm
  split
  · next hkind => exact absurd hkind h
  · exact EditValue.noConfusion
  · exact EditValue.noConfusion
  · exact EditValue.noConfusion

/-- **When two parameters edit a value in the same form.** It takes kinds that edit the value alike,
and nothing else of the two parameters matters.

**Proof sketch.** Switches are told from all else by the form itself. Of two parameters that are no
switches each edits an object as its members or in one line, and all other values in one line, which
does not depend on the kind. -/
theorem editForm_eq_iff : q.editForm v = p.editForm v ↔ q.kind.EditsAlike p.kind v := by
  unfold ParamKind.EditsAlike
  by_cases hq : q.kind = .boolean <;> by_cases hp : p.kind = .boolean
  · simp [editForm_of_boolean hq, editForm_of_boolean hp, hq, hp]
  · simp [editForm_of_boolean hq, (editForm_ne_flag hp v _).symm, hq, hp]
  · simp [editForm_of_boolean hp, editForm_ne_flag hq v _, hq, hp]
  · cases hv : v.isObj with
    | false =>
      rw [editForm_eq_text hq fun _ => hv, editForm_eq_text hp fun _ => hv]
      simp [hq, hp]
    | true =>
      obtain ⟨members, rfl⟩ := Json.exists_eq_obj_of_isObj hv
      by_cases hq' : q.kind = .object <;> by_cases hp' : p.kind = .object
      · simp [editForm_of_object hq', editForm_of_object hp', hq', hp']
      · simp [editForm_of_object hq', editForm_eq_text hp fun h => absurd h hp', hq', hp']
      · simp [editForm_of_object hp', editForm_eq_text hq fun h => absurd h hq', hq', hp']
      · simp [editForm_eq_text hp fun h => absurd h hp',
          editForm_eq_text hq fun h => absurd h hq', hq, hp, hq', hp']

end Param

end Catalog

namespace ActionRow

open Catalog

/-! ## Opened values -/

/-- **When a row holds a stored value as its active declaration has it.** Let a value be stored
under the name of a parameter that is active in the row. The row holds it in the edited form of that
parameter exactly if the first declaration of the name in the tree edits the value alike.

**Proof sketch.** The row holds the value in the form of the first declaration of its name
(`Action.get?_opened_of_eq_some`), and there is one, since what is active is declared. The two forms
are the same exactly if the kinds edit the value alike (`Param.editForm_eq_iff`). -/
theorem get?_ofStored_eq_editForm_iff {catalog : Catalog} {id : String} {stored : StoredAction}
    {d : Action} (hd : OrderedMap.Distinct stored.params)
    (hfound : catalog.action? stored.type = some d) {p : Param}
    (hp : p ∈ d.active (ofStored id catalog stored).params) {v : Json}
    (hv : OrderedMap.get? stored.params p.name = some v) :
    ∃ first, (Param.declared d.params).find? (·.name = p.name) = some first ∧
      (OrderedMap.get? (ofStored id catalog stored).params p.name = some (p.editForm v) ↔
        first.kind.EditsAlike p.kind v) := by
  have hrow : (ofStored id catalog stored).params = d.opened stored.params := by
    rw [ofStored, hfound]
    rfl
  have hdeclared := Param.mem_declared_of_mem_active _ p _ hp
  have hsome : ((Param.declared d.params).find? (·.name = p.name)).isSome = true :=
    List.find?_isSome.2 ⟨p, hdeclared, by simp⟩
  obtain ⟨first, hfirst⟩ := Option.isSome_iff_exists.1 hsome
  refine ⟨first, hfirst, ?_⟩
  have hform : editFormOf d p.name v = first.editForm v := by
    rw [editFormOf, Action.findParam?, Param.findInList?_eq_find?, hfirst]
  rw [hrow, Action.get?_opened_of_eq_some hd hv, hform, Option.some_inj, Param.editForm_eq_iff]

/-- The actions of a catalog with one action, which has recipients of one kind for the provider
`slack` and a text for the provider `email`, under the same name. -/
def recipientSection (kind : String) : Json :=
  .arr [.obj [("type", .str "notify"), ("params", .arr [
    .obj [("name", .str "provider"), ("choices", .arr [.str "slack", .str "email"])],
    .obj [("name", .str "settings"), ("variants", .arr [
      .obj [("value", .str "slack"),
        ("params", .arr [.obj [("name", .str "to"), ("kind", .str kind)]])],
      .obj [("value", .str "email"), ("params", .arr [.obj [("name", .str "to")]])]])]])]]

/-- The recipients of the provider `email`. -/
def recipientParam : Param := { name := "to", kind := .string }

/-- An action with the provider `email` and an address. -/
def emailAction : StoredAction where
  type := "notify"
  params := [("provider", .str "email"), ("to", .str "ops@example.com")]

/-- Where the recipients of the other provider are a list, the address is opened as a text. -/
theorem get?_ofStored_emailAction :
    let catalog := Catalog.ofSections .null .null (recipientSection "list")
    let row := ofStored "action-1" catalog emailAction
    OrderedMap.Distinct emailAction.params ∧
      (∃ d, catalog.action? emailAction.type = some d ∧ recipientParam ∈ d.active row.params ∧
        (Param.declared d.params).find? (·.name = "to") =
          some { name := "to", kind := .stringArray }) ∧
      OrderedMap.get? row.params "to" =
        some (recipientParam.editForm (.str "ops@example.com")) := by
  intro catalog row
  have hd : OrderedMap.Distinct emailAction.params := by
    show ["provider", "to"].Nodup
    decide
  obtain ⟨d, hfound, hp, hfirst⟩ : ∃ d, catalog.action? emailAction.type = some d ∧
      recipientParam ∈ d.active row.params ∧ (Param.declared d.params).find? (·.name = "to") =
        some { name := "to", kind := .stringArray } := by
    refine ⟨_, rfl, ?_, rfl⟩
    exact List.mem_cons_of_mem _ List.mem_cons_self
  refine ⟨hd, ⟨d, hfound, hp, hfirst⟩, ?_⟩
  obtain ⟨first, hfirst', hiff⟩ := get?_ofStored_eq_editForm_iff hd hfound hp rfl
  obtain rfl := Option.some.inj (hfirst.symm.trans hfirst')
  refine hiff.2 ⟨?_, fun hobj => absurd hobj (by decide)⟩
  simp [recipientParam]

/-- Where the recipients of the other provider are a switch, the address is opened as a switch that
is off and saved as the text of that, although the only active parameter of the name is a text. -/
theorem get?_ofStored_emailAction_ne :
    let catalog := Catalog.ofSections .null .null (recipientSection "boolean")
    let row := ofStored "action-1" catalog emailAction
    (∃ d, catalog.action? emailAction.type = some d ∧
      (d.active row.params).filter (·.name = "to") = [recipientParam]) ∧
      recipientParam.editForm (.str "ops@example.com") = .text "ops@example.com" ∧
      OrderedMap.get? row.params "to" = some (.flag false) ∧
      (row.toStored catalog).params = [("provider", .str "email"), ("to", .str "false")] :=
  ⟨⟨_, rfl, rfl⟩, rfl, rfl, rfl⟩

end ActionRow

end RuleEditor
