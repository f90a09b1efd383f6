import RuleEditor.Proofs.Catalog.LookUp
import RuleEditor.Proofs.Text.Trim

/-!
# Catalogs that were read from raw documents

The names in a catalog that was read from a raw document are trimmed, none is blank, and no two
entries of a section have the same one.

## Main results

* `Catalog.Action.nonBlank?_type_of_mem_listOfRaw` — the types of actions.
* `Catalog.isBlank_type_of_action?` — the type of an action that is found in such a catalog.
* `Catalog.action?_type_of_mem` — each action of such a catalog is found by its type.
* `Catalog.looksUpFirst_ofSections` — the look-ups in such a catalog agree.
-/

set_option relaxedAutoImplicit false
set_option autoImplicit false

namespace RuleEditor

/-- A lenient reader of texts gives trimmed texts that are not blank, so that names need no further
care once they were read. -/
lemma Json.Object.nonBlank?_of_text? {o : Json.Object} {names : List String} {t : String}
    (h : o.text? names = some t) : Text.nonBlank? t = some t := by
  obtain ⟨name, _, hname⟩ := List.exists_of_findSome?_eq_some h
  obtain ⟨s, _, hs⟩ := Option.bind_eq_some_iff.1 hname
  exact Text.nonBlank?_of_eq_some hs

/-- Leaving out repeated entries adds none. -/
lemma mem_of_mem_keepFirst {α : Type} {key : α → String} {xs : List α} {x : α}
    (h : x ∈ keepFirst key xs) : x ∈ xs := by
  induction xs with
  | nil => simp [keepFirst] at h
  | cons y rest ih =>
    rw [keepFirst, List.mem_cons] at h
    rcases h with rfl | h
    · exact List.mem_cons_self
    · exact List.mem_cons_of_mem _ (ih (List.mem_of_mem_filter h))

/-- The entries that are left have different keys, which is what makes look-ups by key unambiguous.
-/
lemma nodup_map_keepFirst {α : Type} (key : α → String) (xs : List α) :
    ((keepFirst key xs).map key).Nodup := by
  induction xs with
  | nil => exact List.nodup_nil
  | cons x rest ih =>
    rw [keepFirst, List.map_cons, List.nodup_cons]
    refine ⟨?_, ih.sublist (List.filter_sublist.map key)⟩
    simp [List.mem_map, List.mem_filter]

namespace Catalog

/-- The type of an action of a raw catalog is trimmed and not blank, as every text is that was read
leniently. -/
theorem Action.nonBlank?_type_of_mem_listOfRaw {v : Json} {a : Action} (h : a ∈ listOfRaw v) :
    Text.nonBlank? a.type = some a.type := by
  obtain ⟨entry, _, hentry⟩ := List.mem_filterMap.1 (mem_of_mem_keepFirst h)
  simp only [ofRaw?, Option.bind_eq_bind, Option.bind_eq_some_iff, Option.pure_def,
    Option.some.injEq] at hentry
  obtain ⟨o, _, type, htype, rfl⟩ := hentry
  exact Json.Object.nonBlank?_of_text? htype

/-- No action of a catalog that was read has a blank type. A row with a blank type is therefore
never one of a known action. -/
theorem isBlank_type_of_action? {events operators actions : Json} {type : String} {a : Action}
    (h : (ofSections events operators actions).action? type = some a) :
    Text.isBlank type = false := by
  obtain ⟨hmem, rfl⟩ := mem_of_action? h
  exact (Text.nonBlank?_eq_some_iff.1 (Action.nonBlank?_type_of_mem_listOfRaw hmem)).1

/-- Each action of a catalog that was read is found by its type, which no other action has. So in
such a catalog nothing is hidden behind an entry of the same name. -/
theorem action?_type_of_mem {events operators actions : Json} {a : Action}
    (ha : a ∈ (ofSections events operators actions).actions) :
    (ofSections events operators actions).action? a.type = some a :=
  (lookUp_eq_some_iff_of_nodup (nodup_map_keepFirst Action.type _)).2 ⟨ha, rfl⟩

/-- All look-ups in a catalog that was read go by the first entry: repeated entries were left out
before, so that there is one of each name at most. -/
theorem looksUpFirst_ofSections (events operators actions : Json) (name : String) :
    (ofSections events operators actions).LooksUpFirst name :=
  looksUpFirst_of_nodup (nodup_map_keepFirst Operator.id _) (nodup_map_keepFirst Action.type _) name

end Catalog

end RuleEditor
