import Mathlib.Data.Fintype.EquivFin
import RuleEditor.Proofs.Form.ActionRow.Stored

/-!
# Impaired rows

A stored action whose type the catalog does not know is opened as an impaired row, which retains the
stored values. If the row is saved as one of an unknown type, a value that was not touched is
written as it was stored, whatever else was edited. But opening looks for the type as it was stored,
and saving for the trimmed type: if white space is all that the catalog does not know of a type, the
row is opened as an impaired one and saved as one of a known type, and the retained values count for
nothing.

## Main definitions

* `ActionRow.edited` — a row after values were written into it.
* `ActionRow.SavesUntouched` — saving writes what was not touched as it was stored.

## Main results

* `ActionRow.get?_params_toStored` — what is saved of a row of an unknown type.
* `ActionRow.impaired_keeps_iff` — impaired rows of a type keep their values exactly if the catalog
  does not know the trimmed type either.
-/

set_option relaxedAutoImplicit false
set_option autoImplicit false

namespace RuleEditor.ActionRow

/-- A row after values were written into it, one after the other. Of a row of an unknown type
nothing is switched by an edit, since there are no declarations. -/
def edited (r : ActionRow) (edits : List (String × EditValue)) : ActionRow :=
  { r with params := OrderedMap.insertMany r.params edits }

/-- Saving a row writes each stored value as it was stored if the value in the row still is its
edited form. The value in the row may have been written again, as long as it is the same; a name
that is no longer in the row does not count. -/
def SavesUntouched (catalog : Catalog) (stored : Json.Object) (r : ActionRow) : Prop :=
  ∀ name v value, OrderedMap.get? stored name = some v →
    OrderedMap.get? r.params name = some value →
    (EditValue.ofStored v).same value = true →
    OrderedMap.get? (r.toStored catalog).params name = some v

/-! ## Opening -/

/-- The impaired rows are those of stored actions whose type is not known. -/
lemma impaired_ofStored_iff {catalog : Catalog} {id : String} {a : StoredAction} :
    (ofStored id catalog a).impaired = true ↔ catalog.action? a.type = none := by
  rw [ofStored]
  cases catalog.action? a.type with
  | none => simp [ofUnknown]
  | some d => simp [ofKnown]

/-- A stored action of an unknown type is opened with its values retained. -/
lemma ofStored_eq_ofUnknown {catalog : Catalog} {id : String} {a : StoredAction}
    (h : catalog.action? a.type = none) : ofStored id catalog a = ofUnknown id a := by
  rw [ofStored, h]

/-- The row of an action of an unknown type repeats no parameter, and neither does it after
edits. -/
lemma distinct_params_edited_ofUnknown (id : String) (a : StoredAction)
    (edits : List (String × EditValue)) :
    OrderedMap.Distinct ((ofUnknown id a).edited edits).params :=
  (OrderedMap.distinct_ofList _).insertMany edits

/-! ## Saving -/

/-- What is saved of a row of an unknown type is each value by itself: the stored value if it was
not touched, and else what the edited value is saved as where nothing is known of the parameter. -/
theorem get?_params_toStored {catalog : Catalog} {r : ActionRow}
    (hnone : catalog.action? (Text.trim r.type) = none) (hd : OrderedMap.Distinct r.params)
    (name : String) :
    OrderedMap.get? (r.toStored catalog).params name =
      (OrderedMap.get? r.params name).bind (storedUnknown? r.retained name) := by
  simp only [toStored, hnone]
  rw [OrderedMap.ofList_eq_self (hd.filterMap (storedUnknown? r.retained))]
  exact hd.get?_filterMap (storedUnknown? r.retained) name

/-- A retained value that was not touched is saved as it was stored. -/
lemma storedUnknown?_of_same {stored : Json.Object} {name : String} {v : Json} {value : EditValue}
    (hv : OrderedMap.get? stored name = some v)
    (hsame : (EditValue.ofStored v).same value = true) :
    storedUnknown? (some stored) name value = some v := by
  have hraw : (some stored).bind (fun members => OrderedMap.get? members name) = some v := hv
  simp only [storedUnknown?, hraw, Option.filter_some, hsame, ↓reduceIte]

/-- A row of an unknown type that retains stored values saves what was not touched of them. -/
lemma savesUntouched_of_retained {catalog : Catalog} {stored : Json.Object} {r : ActionRow}
    (hnone : catalog.action? (Text.trim r.type) = none) (hd : OrderedMap.Distinct r.params)
    (hretained : r.retained = some stored) : r.SavesUntouched catalog stored := by
  intro name v value hv hvalue hsame
  rw [get?_params_toStored hnone hd, hvalue, Option.bind_some, hretained]
  exact storedUnknown?_of_same hv hsame

/-- Of a row of a known type nothing is saved under a name that is not declared. -/
lemma get?_params_toStored_of_undeclared {catalog : Catalog} {r : ActionRow} {d : Catalog.Action}
    (hfound : catalog.action? (Text.trim r.type) = some d) {name : String}
    (hname : ∀ p ∈ Catalog.Param.declared d.params, p.name ≠ name) :
    OrderedMap.get? (r.toStored catalog).params name = none := by
  simp only [toStored, hfound]
  rw [Catalog.Action.get?_storedKnown, Catalog.Param.savedByLast?_eq_none_iff]
  intro p hp hpname
  exact absurd hpname (hname p (Catalog.Param.mem_declared_of_mem_active r.params p d.params hp))

/-- **Impaired rows keep what was stored exactly if the trimmed type is not known either.** For all
stored actions of a type that are opened as impaired rows, the values come back as they are and in
order if the row is saved at once, and those that were not touched come back after any edits, unless
the catalog knows the type that is left after trimming.

**Proof sketch.** If it does not, the row is saved as one of an unknown type, which looks at the
retained values. If it does, a value under a name that the action does not declare is lost. -/
theorem impaired_keeps_iff (catalog : Catalog) (id type : String) :
    (∀ stored : Json.Object, OrderedMap.Distinct stored →
        (ofStored id catalog ⟨type, stored⟩).impaired = true →
        ((ofStored id catalog ⟨type, stored⟩).toStored catalog).params = stored ∧
          ∀ edits,
            ((ofStored id catalog ⟨type, stored⟩).edited edits).SavesUntouched catalog stored) ↔
      (catalog.action? type = none → catalog.action? (Text.trim type) = none) := by
  constructor
  · intro h hnone
    by_contra hknown
    obtain ⟨d, hd⟩ := Option.ne_none_iff_exists'.1 hknown
    -- there is a name that the action does not declare
    obtain ⟨name, hname⟩ := Infinite.exists_notMem_finset
      ((Catalog.Param.declared d.params).map fun p => p.name).toFinset
    have hundeclared : ∀ p ∈ Catalog.Param.declared d.params, p.name ≠ name := by
      rintro p hp rfl
      exact hname (List.mem_toFinset.2 (List.mem_map_of_mem hp))
    have himpaired : (ofStored id catalog ⟨type, [(name, .null)]⟩).impaired = true :=
      impaired_ofStored_iff.2 hnone
    have hkept := (h [(name, .null)] (by simp [OrderedMap.Distinct, OrderedMap.keys]) himpaired).1
    have htype : (ofStored id catalog ⟨type, [(name, .null)]⟩).type = type := by
      rw [ofStored_eq_ofUnknown hnone, ofUnknown]
    have hlost := get?_params_toStored_of_undeclared (htype ▸ hd) hundeclared
    rw [hkept] at hlost
    exact absurd hlost (by simp [OrderedMap.get?])
  · intro h stored hd himpaired
    have hnone : catalog.action? type = none := impaired_ofStored_iff.1 himpaired
    rw [ofStored_eq_ofUnknown hnone]
    refine ⟨params_toStored_ofUnknown hd (h hnone), fun edits => ?_⟩
    have htype : catalog.action? (Text.trim ((ofUnknown id ⟨type, stored⟩).edited edits).type) =
        none := h hnone
    exact savesUntouched_of_retained htype (distinct_params_edited_ofUnknown id _ edits) rfl

/-- The actions of a catalog with one action, which takes no parameters. -/
def bareSection : Json := .arr [.obj [("type", .str "notify")]]

/-- A stored type with a space in front is not known, and the row retains the stored values; but it
is saved as one of the known type, and they are lost. -/
theorem params_toStored_of_spaced_type :
    let catalog := Catalog.ofSections .null .null bareSection
    let row := ofStored "action-1" catalog ⟨" notify", [("url", .str "x")]⟩
    row.impaired = true ∧ row.retained = some [("url", .str "x")] ∧
      (row.toStored catalog).params = [] := by
  exact ⟨rfl, rfl, rfl⟩

end RuleEditor.ActionRow
