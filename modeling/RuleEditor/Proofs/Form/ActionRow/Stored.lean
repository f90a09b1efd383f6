import RuleEditor.Proofs.Catalog.LookUp
import RuleEditor.Proofs.Form.ActionRow.Reopening
import RuleEditor.Proofs.Rule
import RuleEditor.Proofs.Text.Trim

/-!
# Reopening stored actions

An action whose type the catalog does not know comes back from its row as it was stored. An action
of a known type comes back exactly if its parameters are settled.

## Main results

* `ActionRow.toStored_ofUnknown` — an action of an unknown type comes back.
* `ActionRow.toStored_ofStored_iff` — what makes an action come back.
-/

set_option relaxedAutoImplicit false
set_option autoImplicit false

namespace RuleEditor.ActionRow

/-! ## Unknown types -/

/-- A retained value is saved as it was, if its edited form was not touched.

**Proof sketch.** A text or a switch is the same as itself. An object need not be, if it repeats a
name, but it is saved as it is edited. -/
lemma storedUnknown?_ofStored {members : Json.Object} {name : String} {v : Json}
    (h : OrderedMap.get? members name = some v) :
    storedUnknown? (some members) name (.ofStored v) = some v := by
  have hraw : (some members).bind (fun members => OrderedMap.get? members name) = some v := h
  simp only [storedUnknown?, hraw, Option.filter_some]
  split_ifs with hsame
  · rfl
  · cases v with
    | obj members => rfl
    | _ => exact absurd hsame (by simp [EditValue.ofStored, EditValue.same])

/-- Parameters that are read from an object without repeated names are its members, one by one. -/
lemma ofMembers_eq_map {members : Json.Object} (hd : OrderedMap.Distinct members) :
    Params.ofMembers members = members.map fun (name, v) => (name, EditValue.ofStored v) := by
  apply OrderedMap.ofList_eq_self
  simpa [OrderedMap.Distinct, OrderedMap.keys, Function.comp_def] using hd

/-- The members of an object without repeated names are saved as they were stored. -/
lemma filterMap_storedUnknown? {members : Json.Object} (hd : OrderedMap.Distinct members) :
    ((Params.ofMembers members).filterMap fun (name, value) =>
      (storedUnknown? (some members) name value).map (name, ·)) = members := by
  rw [ofMembers_eq_map hd, List.filterMap_map, List.filterMap_congr (g := some) ?_,
    List.filterMap_some]
  rintro ⟨name, v⟩ hmem
  simp [storedUnknown?_ofStored ((OrderedMap.get?_eq_some_iff hd).2 hmem)]

/-- The values of an action whose trimmed type is not known come back from its row. -/
lemma params_toStored_ofUnknown {catalog : Catalog} {id : String} {a : StoredAction}
    (hd : OrderedMap.Distinct a.params) (hnone : catalog.action? (Text.trim a.type) = none) :
    ((ofUnknown id a).toStored catalog).params = a.params := by
  have hnone' : catalog.action? (Text.trim (ofUnknown id a).type) = none := hnone
  simp only [toStored, hnone']
  simp only [ofUnknown, filterMap_storedUnknown? hd, OrderedMap.ofList_eq_self hd]

/-- A saved action has the trimmed type of its row. -/
@[simp] lemma type_toStored (catalog : Catalog) (r : ActionRow) :
    (r.toStored catalog).type = Text.trim r.type := by
  simp only [toStored]
  split <;> rfl

/-- An action of an unknown type comes back from its row, with its parameters in the order in which
they were stored, if its type is trimmed. -/
theorem toStored_ofUnknown {catalog : Catalog} {id : String} {a : StoredAction}
    (htype : Text.trim a.type = a.type) (hd : OrderedMap.Distinct a.params)
    (hnone : catalog.action? a.type = none) : (ofUnknown id a).toStored catalog = a := by
  have htype' : ((ofUnknown id a).toStored catalog).type = a.type := by
    rw [type_toStored]
    exact htype
  have hparams : ((ofUnknown id a).toStored catalog).params = a.params :=
    params_toStored_ofUnknown hd (by rw [htype, hnone])
  calc (ofUnknown id a).toStored catalog
      = ⟨((ofUnknown id a).toStored catalog).type,
          ((ofUnknown id a).toStored catalog).params⟩ := rfl
    _ = a := by rw [htype', hparams]

/-! ## Known types -/

/-- The row of an action of a known type has the type of the action. -/
lemma type_ofKnown {catalog : Catalog} {type : String} {d : Catalog.Action}
    (h : catalog.action? type = some d) : d.type = type := (Catalog.mem_of_action? h).2

/-- A row has the type of the action that it was opened from. -/
lemma type_ofStored (id : String) (catalog : Catalog) (a : StoredAction) :
    (ofStored id catalog a).type = a.type := by
  rw [ofStored]
  cases hfound : catalog.action? a.type with
  | none => rfl
  | some d => exact type_ofKnown hfound

/-- An action of a known type is saved with what its declarations save of the opened parameters. -/
lemma toStored_ofStored_of_found {catalog : Catalog} {a : StoredAction} {d : Catalog.Action}
    (htype : Text.trim a.type = a.type) (hfound : catalog.action? a.type = some d) (id : String) :
    (ofStored id catalog a).toStored catalog = ⟨a.type, storedKnown d (d.opened a.params)⟩ := by
  have htrim : Text.trim (ofStored id catalog a).type = a.type := by rw [type_ofStored, htype]
  have hrow : (ofStored id catalog a).params = d.opened a.params := by
    rw [ofStored, hfound]
    rfl
  simp only [toStored, htrim, hfound, hrow]

/-- **What makes an action come back.** A stored action with a trimmed type comes back from its row,
the order of parameters aside, exactly if its parameters are settled or its type is not known. The
type has to be trimmed because it is saved so. -/
theorem toStored_ofStored_iff {catalog : Catalog} {id : String} {a : StoredAction}
    (htype : Text.trim a.type = a.type) (hd : OrderedMap.Distinct a.params) :
    ((ofStored id catalog a).toStored catalog).EqUpToOrder a ↔
      ∀ d, catalog.action? a.type = some d → d.Settled a.params := by
  cases hfound : catalog.action? a.type with
  | none =>
    have hback : (ofStored id catalog a).toStored catalog = a := by
      rw [ofStored, hfound]
      exact toStored_ofUnknown htype hd hfound
    rw [hback]
    exact ⟨fun _ d hd' => absurd hd' (by simp), fun _ => ⟨rfl, .refl _⟩⟩
  | some d =>
    rw [toStored_ofStored_of_found htype hfound id]
    constructor
    · intro h d' hd'
      obtain rfl := Option.some.inj hd'
      exact (Catalog.Action.storedKnown_opened_perm_iff hd).1 h.params
    · intro h
      exact ⟨rfl, (Catalog.Action.storedKnown_opened_perm_iff hd).2 (h d rfl)⟩

/-- Saved parameters repeat no name. -/
lemma distinct_params_toStored (catalog : Catalog) (r : ActionRow) :
    OrderedMap.Distinct (r.toStored catalog).params := by
  simp only [toStored]
  split
  · exact OrderedMap.distinct_ofList _
  · exact OrderedMap.distinct_ofList _

end RuleEditor.ActionRow
