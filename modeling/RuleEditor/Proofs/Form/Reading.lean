import RuleEditor.Form.Validation
import RuleEditor.Proofs.OrderedMap
import RuleEditor.Proofs.Rule.Reading

/-!
# Reading written forms

A form is written as a record in which the members of rows that have their usual values are left
out. All members of a form are read back as they were, the ids of the rows among them, so that
reading takes no id from the counter. The parameters of a row are a map in the record; they are read
back as they were if no name is repeated among them, as is the case in all maps that are built by
writing one entry after the other.

## Main definitions

* `ActionRow.reread` — what is read back of a row.

## Main results

* `Form.ofJson?_toJson` — what is read back of any form.
* `Form.ofJson?_toJson_iff` — the forms that are read back as they were.
* `Form.ofJson?_toJson_of_distinct` — a form that was written and read is checked and saved as
  before.
-/

set_option relaxedAutoImplicit false
set_option autoImplicit false

namespace RuleEditor

/-! ## Parts of rows -/

/-- An aggregator is read back from its name. -/
lemma Aggregator.ofName?_name (a : Aggregator) : ofName? a.name = some a := by
  cases a <;> rfl

/-- A type of values is read back from its name. -/
lemma ValueType.ofName?_name (t : ValueType) : ofName? t.name = some t := by
  cases t <;> rfl

/-- An edited value is read back from what is written of it: each kind of value is written as a kind
of JSON that is edited as that kind of value. -/
@[simp] lemma EditValue.ofStored_toJson (v : EditValue) : ofStored v.toJson = v := by
  cases v <;> rfl

/-- Parameters are read back entry by entry, so that a repeated name has the place of its first
entry and the value of its last. -/
theorem Params.ofJson?_toJson (m : Params) : ofJson? m.toJson = some (OrderedMap.ofList m) := by
  have hentries : (m.map fun entry => (entry.1, entry.2.toJson)).map
      (fun entry => (entry.1, EditValue.ofStored entry.2)) = m := by
    simp [List.map_map, Function.comp_def]
  exact congrArg (fun entries => some (OrderedMap.ofList entries)) hentries

/-! ## Rows -/

/-- A row of a condition is read back from its record, whether or not it has a path to compare with,
and be that path blank. -/
theorem ConditionRow.ofJson?_toJson (r : ConditionRow) : ofJson? r.toJson = some r := by
  obtain ⟨path, operator, value, valueType, comparePath⟩ := r
  cases comparePath <;>
    simp [ofJson?, toJson, Json.fields?, Json.memberIf, Json.Object.orElse, Json.Object.optional,
      Json.str?, Json.word?, OrderedMap.get?, ValueType.ofName?_name]

namespace ActionRow

/-- What is read back of a row: its parameters are merged by name, which changes nothing if no name
is repeated. All other parts of a row are read back as they are, its id included. -/
def reread (r : ActionRow) : ActionRow := { r with params := OrderedMap.ofList r.params }

/-- A row stays as it is exactly if no parameter is repeated. -/
lemma reread_eq_self_iff (r : ActionRow) : r.reread = r ↔ OrderedMap.Distinct r.params := by
  constructor
  · intro h
    rw [← h]
    exact OrderedMap.distinct_ofList r.params
  · intro hd
    rw [reread, OrderedMap.ofList_eq_self hd]

/-- A list of rows stays as it is exactly if no row repeats a parameter. -/
lemma map_reread_eq_self_iff (rows : List ActionRow) :
    rows.map reread = rows ↔ ∀ row ∈ rows, OrderedMap.Distinct row.params := by
  calc rows.map reread = rows ↔ rows.map reread = rows.map fun row => row := by rw [List.map_id']
    _ ↔ ∀ row ∈ rows, row.reread = row := List.map_inj_left
    _ ↔ ∀ row ∈ rows, OrderedMap.Distinct row.params := by simp only [reread_eq_self_iff]

/-- A row is read back from its record with its parameters merged, and takes no id. -/
theorem ofJson?_toJson (r : ActionRow) (next : Nat) :
    ofJson? r.toJson next = some (r.reread, next) := by
  obtain ⟨id, type, params, impaired, retained⟩ := r
  have hparams := Params.ofJson?_toJson params
  cases impaired <;> cases retained <;>
    simp [ofJson?, toJson, reread, Json.fields?, Json.memberIf, Json.flagIf, Json.Object.orElse,
      Json.Object.optional, Json.str?, Json.bool?, Json.obj?, OrderedMap.get?, hparams]

/-- A list of rows is read back row by row, and takes no ids. -/
lemma listOfItems_toJson (rows : List ActionRow) (next : Nat) :
    listOfItems (rows.map toJson) next = (some (rows.map reread), next) := by
  induction rows with
  | nil => rfl
  | cons r rest ih => simp [listOfItems, ofJson?_toJson, ih]

end ActionRow

namespace Form

/-! ## Forms -/

/-- A form is read back from its record with the parameters of its rows merged, and takes no ids. -/
theorem ofJson?_toJson (f : Form) (next : Nat) :
    ofJson? f.toJson next
      = (some { f with actions := f.actions.map ActionRow.reread }, next) := by
  obtain ⟨name, description, event, priority, active, aggregator, conditions, actions,
    collapsedNesting⟩ := f
  have hconditions := Json.listOf?_map ConditionRow.ofJson?_toJson conditions
  have hactions := ActionRow.listOfItems_toJson actions next
  cases collapsedNesting <;>
    simp [ofJson?, toJson, readMembers, readMember?, Json.flagIf, Json.str?, Json.bool?, Json.word?,
      Aggregator.ofName?_name, hconditions, hactions]

/-- **A form is read back as it was exactly if no row repeats a parameter.** Nothing else is asked
of a form, neither that it is complete nor that its ids are distinct. -/
theorem ofJson?_toJson_iff (f : Form) (next : Nat) :
    ofJson? f.toJson next = (some f, next) ↔
      ∀ row ∈ f.actions, OrderedMap.Distinct row.params := by
  rw [ofJson?_toJson, ← ActionRow.map_reread_eq_self_iff]
  constructor
  · exact fun h => congrArg Form.actions (Option.some.inj (Prod.mk.inj h).1)
  · intro hactions
    rw [hactions]

/-- **Writing a form and reading it loses nothing.** A form whose rows repeat no parameter is read
back as it was, with all ids and without taking one from the counter, and what is read back is
checked and saved like the form that was written. -/
theorem ofJson?_toJson_of_distinct {f : Form}
    (hd : ∀ row ∈ f.actions, OrderedMap.Distinct row.params) (next : Nat) :
    ofJson? f.toJson next = (some f, next) ∧
      ∀ catalog : Catalog,
        let back := (ofJson? f.toJson next).1
        back.map (issues catalog) = some (f.issues catalog) ∧
          back.map (compile catalog) = some (f.compile catalog) ∧
          back.map (toRule catalog) = some (f.toRule catalog) := by
  have hback := (ofJson?_toJson_iff f next).2 hd
  refine ⟨hback, fun catalog => ?_⟩
  rw [hback]
  exact ⟨rfl, rfl, rfl⟩

/-- A form with all that its record can leave out or has to tell apart: a path to compare with that
is blank and one that is missing, texts that look like other values, an empty object, an empty id,
and a row that keeps stored values. -/
def variedForm : Form where
  name := " r "
  active := false
  aggregator := .or
  conditions :=
    [{ path := "$.a", operator := "==", value := "1", valueType := .number,
        comparePath := some " " },
      { value := "true", valueType := .boolean }]
  actions :=
    [{ id := "action-7", type := "notify",
        params := [("b", .text "true"), ("a", .flag true), ("o", .object []),
          ("p", .object [("path", .str ""), ("x", .null)])] },
      { id := "", type := "gone", params := [("n", .text "1.0")], impaired := true,
        retained := some [("n", .num (.ofInt64 1))] }]
  collapsedNesting := true

/-- That form is read back, checked and saved as it was. -/
theorem ofJson?_toJson_variedForm :
    (∀ row ∈ variedForm.actions, OrderedMap.Distinct row.params) ∧
      ofJson? variedForm.toJson 1 = (some variedForm, 1) ∧
      ∀ catalog : Catalog,
        let back := (ofJson? variedForm.toJson 1).1
        back.map (issues catalog) = some (variedForm.issues catalog) ∧
          back.map (compile catalog) = some (variedForm.compile catalog) ∧
          back.map (toRule catalog) = some (variedForm.toRule catalog) := by
  have hd : ∀ row ∈ variedForm.actions, OrderedMap.Distinct row.params := by
    simp [variedForm, OrderedMap.Distinct, OrderedMap.keys]
  exact ⟨hd, ofJson?_toJson_of_distinct hd 1⟩

end Form

end RuleEditor
