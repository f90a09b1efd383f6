import RuleEditor.Proofs.Form.ActionRow.Editing
import RuleEditor.Proofs.Form.ActionRow.Reopening
import RuleEditor.Proofs.Text.Trim

/-!
# Objects as text

The value of an object parameter is held as an object or typed as its text, and white space around
the text does not count for its value. Both are saved as the same object, unless it has no members:
held as an object it is no value, typed as text it is one. So the two differ for a parameter that
may be missing.

As the value of a controller a text counts with the white space around it, so that it selects other
variants than the object does.

## Main definitions

* `EditValue.typed` — an object as text, with something around it.
* `ActionRow.withValue` — a row with another value for a parameter.

## Main results

* `Json.trim_compact_obj` — the text of an object is trimmed.
* `ActionRow.storedKnown_insert_eq_iff` — when two values of a parameter are saved alike.
* `ActionRow.storedForm?_and_toStored_typed_iff` — when an object is saved as its text is.
-/

set_option relaxedAutoImplicit false
set_option autoImplicit false

namespace RuleEditor

open Catalog

/-- The text of an object, with something before and something after it, as it is typed into a line.
It stands for the object as long as what is around it is white space. -/
def EditValue.typed (before : String) (o : Json.Object) (after : String) : EditValue :=
  .text (before ++ (Json.obj o).compact ++ after)

/-- A row with another value for a parameter. Nothing is switched by it: this compares two states of
a row, and is no edit. -/
def ActionRow.withValue (r : ActionRow) (name : String) (value : EditValue) : ActionRow :=
  { r with params := OrderedMap.insert r.params name value }

namespace Json

/-! ## Texts of objects -/

/-- The text of the members behind the first ends with the closing brace. -/
lemma exists_compactMembers_eq (rest : Object) :
    ∃ cs, compactMembers rest = cs ++ ['\x7d'] := by
  induction rest with
  | nil => exact ⟨[], rfl⟩
  | cons member rest ih =>
    obtain ⟨name, v⟩ := member
    obtain ⟨cs, hcs⟩ := ih
    refine ⟨',' :: (quoteChars name ++ ':' :: (compactChars v ++ cs)), ?_⟩
    rw [compactMembers, hcs]
    simp

/-- The text of an object stands in braces. -/
lemma exists_compactChars_obj_eq (o : Object) :
    ∃ cs, compactChars (.obj o) = '\x7b' :: (cs ++ ['\x7d']) := by
  cases o with
  | nil => exact ⟨[], rfl⟩
  | cons member rest =>
    obtain ⟨name, v⟩ := member
    obtain ⟨cs, hcs⟩ := exists_compactMembers_eq rest
    refine ⟨quoteChars name ++ ':' :: (compactChars v ++ cs), ?_⟩
    rw [compactChars, hcs]
    simp

/-- The compact text of an object is trimmed, since it begins and ends with braces. -/
theorem trim_compact_obj (o : Object) : Text.trim (Json.obj o).compact = (Json.obj o).compact := by
  obtain ⟨cs, hcs⟩ := exists_compactChars_obj_eq o
  have htrim : Text.trimChars (compactChars (.obj o)) = compactChars (.obj o) := by
    rw [hcs]
    refine Text.trimChars_eq_self (fun c hc => ?_) fun c hc => ?_
    · obtain rfl : '\x7b' = c := by simpa using hc
      rfl
    · obtain rfl : '\x7d' = c := by simpa [List.getLast?_cons] using hc
      rfl
  rw [Text.trim, compact, String.toList_ofList, htrim]

/-- The text of an object is not empty. -/
lemma compact_obj_ne_empty (o : Object) : (Json.obj o).compact ≠ "" := by
  obtain ⟨cs, hcs⟩ := exists_compactChars_obj_eq o
  intro h
  have hnil := congrArg String.toList h
  rw [compact, String.toList_ofList, hcs] at hnil
  simp at hnil

/-- A text is read as the value of its tree, if nothing is left behind the tree. -/
lemma parse?_of_value {s : String} {tree : Raw} {v : Json}
    (htree : Raw.value (2 * s.toList.length + 1) s.toList = (tree, some []))
    (hv : tree.value? Raw.maxDepth = some v) : parse? s = some v := by
  have hend : Raw.skipSpace [] = [] := rfl
  simp [parse?, Raw.parse?, Raw.parse, htree, hend, hv]

end Json

namespace Catalog.Param

variable {p : Param} {o : Json.Object} (hkind : p.kind = .object)

include hkind

/-! ## Object parameters -/

/-- A parameter of objects saves an object as it is, unless it has no members. -/
lemma storedForm?_object : p.storedForm? (some (.object o)) = Json.nonEmptyObject o := by
  unfold storedForm?
  rw [hkind]
  rfl

variable (hread : Json.parse? (Json.obj o).compact = some (.obj o))

include hread

/-- A parameter of objects saves the text of an object as the object, with or without members. -/
lemma storedForm?_typed {before after : String} (hbefore : Text.isBlank before = true)
    (hafter : Text.isBlank after = true) :
    p.storedForm? (some (.typed before o after)) = some (.obj o) := by
  have hnonBlank : Text.nonBlank? (before ++ (Json.obj o).compact ++ after) =
      some (Json.obj o).compact := by
    have htrim : Text.trim (before ++ (Json.obj o).compact ++ after) = (Json.obj o).compact := by
      rw [Text.trim_append_append hbefore hafter, Json.trim_compact_obj]
    refine Text.nonBlank?_eq_some_iff.2 ⟨?_, htrim⟩
    rw [Text.isBlank_eq_false_iff, htrim]
    exact Json.compact_obj_ne_empty o
  have hparse : ParamKind.object.parse? (Json.obj o).compact = some (.obj o) := by
    rw [ParamKind.parse?, hread]
    rfl
  rw [EditValue.typed, storedForm?_text (by simp [hkind]), hkind, ParamKind.storedText?, hnonBlank,
    Option.map_some, hparse, Option.getD_some]
  exact ParamKind.noConfusion

/-- A parameter of objects saves the same of an object and of its text, unless the object has no
members and the parameter may be missing. -/
lemma saved?_typed_eq_iff {before after : String} (hbefore : Text.isBlank before = true)
    (hafter : Text.isBlank after = true) :
    p.saved? (some (.typed before o after)) = p.saved? (some (.object o)) ↔
      o ≠ [] ∨ p.required = true := by
  have htyped := storedForm?_typed hkind hread hbefore hafter
  have hobject : p.storedForm? (some (.object o)) = Json.nonEmptyObject o :=
    storedForm?_object hkind
  rw [saved?, saved?, htyped, hobject, hkind]
  cases o with
  | nil => cases p.required <;> simp [Json.nonEmptyObject, ParamKind.emptyValue]
  | cons member rest => simp [Json.nonEmptyObject]

end Catalog.Param

namespace ActionRow

variable {a : Action} {m : Params} {p : Param} {value value' : EditValue}

/-! ## Two values of a parameter -/

/-- Under two values of a parameter the same is active if their texts are the same, or if the
parameter controls nothing that is looked at. -/
lemma active_insert_eq
    (h : value.toText = value'.toText ∨
      ¬Param.Consults (OrderedMap.insert m p.name value') a.params p.name) :
    a.active (OrderedMap.insert m p.name value) = a.active (OrderedMap.insert m p.name value') := by
  refine Param.active_congr fun c hc => ?_
  by_cases hname : p.name = c
  · subst hname
    rw [Params.textOf_insert, Params.textOf_insert, h.resolve_right (not_not_intro hc)]
  · exact Params.textOf_congr (by simp only [OrderedMap.get?_insert, if_neg hname])

/-- A parameter saves the value that was given to it. -/
lemma storedParam?_insert (m : Params) (p : Param) (value : EditValue) :
    storedParam? (OrderedMap.insert m p.name value) p = p.saved? (some value) := by
  rw [Param.storedParam?_eq_saved?, OrderedMap.get?_insert, if_pos rfl]

/-- **When two values of a parameter are saved alike.** Let the same be active under both, and no
other parameter of the name. Then the rows are saved alike exactly if the parameter is not active,
or the same is saved of it. The values themselves may well be different.

**Proof sketch.** What is saved under the name is what the parameter saves (`get?_storedKnown`), and
the other active parameters look at other values. -/
theorem storedKnown_insert_eq_iff
    (hactive : a.active (OrderedMap.insert m p.name value) =
      a.active (OrderedMap.insert m p.name value'))
    (honce : ∀ q ∈ a.active (OrderedMap.insert m p.name value'), q.name = p.name → q = p) :
    storedKnown a (OrderedMap.insert m p.name value) =
        storedKnown a (OrderedMap.insert m p.name value') ↔
      (p ∈ a.active (OrderedMap.insert m p.name value') →
        p.saved? (some value) = p.saved? (some value')) := by
  constructor
  · intro h hp
    have hget := congrArg (OrderedMap.get? · p.name) h
    simp only [Action.get?_storedKnown, hactive, OrderedMap.get?_insert, if_true] at hget
    rwa [Param.savedByLast?_eq_saved? hp honce, Param.savedByLast?_eq_saved? hp honce] at hget
  · intro h
    rw [storedKnown, storedKnown, hactive]
    congr 1
    refine List.filterMap_congr fun q hq => ?_
    by_cases hname : q.name = p.name
    · obtain rfl := honce q hq hname
      rw [storedParam?_insert, storedParam?_insert, h hq]
    · have hne : p.name ≠ q.name := fun heq => hname heq.symm
      rw [Param.storedParam?_eq_saved?, Param.storedParam?_eq_saved?, OrderedMap.get?_insert,
        OrderedMap.get?_insert, if_neg hne, if_neg hne]

/-- Where no other parameter is active, nothing else is saved. -/
lemma storedKnown_insert_eq_singleton {v : Json}
    (hactive : a.active (OrderedMap.insert m p.name value) = [p])
    (hv : p.saved? (some value) = some v) :
    storedKnown a (OrderedMap.insert m p.name value) = [(p.name, v)] := by
  rw [storedKnown, hactive, List.filterMap_cons, storedParam?_insert, hv]
  rfl

/-- A row of a known type is saved with another value for a parameter. -/
lemma toStored_withValue {catalog : Catalog} {r : ActionRow}
    (hfound : catalog.action? (Text.trim r.type) = some a) (name : String) (value : EditValue) :
    (r.withValue name value).toStored catalog =
      ⟨Text.trim r.type, storedKnown a (OrderedMap.insert r.params name value)⟩ := by
  simp only [toStored, withValue, hfound]

/-- **When an object is saved as its text is.** Let the text of an object be read as the object, and
stand in nothing but white space. A parameter of objects makes the same of the text and of the
object exactly if the object has members. Rows of a known type that differ in this value alone, with
no other active parameter of the name, are saved alike exactly if the object has members or the
parameter is required, as far as it is active; if there is white space around the text, the
parameter has to control nothing that is looked at.

**Proof sketch.** The text gives the object, with or without members (`Param.storedForm?_typed`).
The same is active for both, since the text of the object is what is typed, and then it is the saved
value that counts (`storedKnown_insert_eq_iff`). -/
theorem storedForm?_and_toStored_typed_iff {p : Param} (hkind : p.kind = .object) {o : Json.Object}
    (hread : Json.parse? (Json.obj o).compact = some (.obj o)) {before after : String}
    (hbefore : Text.isBlank before = true) (hafter : Text.isBlank after = true) :
    (p.storedForm? (some (.typed before o after)) = p.storedForm? (some (.object o)) ↔ o ≠ []) ∧
    ∀ (catalog : Catalog) (r : ActionRow) (a : Action),
      let held := r.withValue p.name (.object o)
      catalog.action? (Text.trim r.type) = some a →
      (∀ q ∈ a.active held.params, q.name = p.name → q = p) →
      (before = "" ∧ after = "" ∨ ¬Param.Consults held.params a.params p.name) →
      ((r.withValue p.name (.typed before o after)).toStored catalog = held.toStored catalog ↔
        (p ∈ a.active held.params → o ≠ [] ∨ p.required = true)) := by
  have htyped := Param.storedForm?_typed hkind hread hbefore hafter
  have hobject : p.storedForm? (some (.object o)) = Json.nonEmptyObject o :=
    Param.storedForm?_object hkind
  constructor
  · rw [htyped, hobject]
    cases o <;> simp [Json.nonEmptyObject]
  · intro catalog r a held hfound honce halike
    have hactive : a.active (OrderedMap.insert r.params p.name (.typed before o after)) =
        a.active (OrderedMap.insert r.params p.name (.object o)) := by
      refine active_insert_eq (halike.imp_left ?_)
      rintro ⟨rfl, rfl⟩
      rw [EditValue.typed, EditValue.toText, EditValue.toText, String.empty_append,
        String.append_empty]
    rw [toStored_withValue hfound, toStored_withValue hfound, StoredAction.mk.injEq,
      ← Param.saved?_typed_eq_iff hkind hread hbefore hafter]
    exact (and_iff_right rfl).trans (storedKnown_insert_eq_iff hactive honce)

/-- The body of a message. -/
def bodyParam : Param := { name := "body", kind := .object }

/-- An action that sends a body. -/
def sendAction : Action where
  type := "send"
  params := [bodyParam]

/-- Where a message goes. -/
def targetParam : Param := { name := "target", required := true, kind := .string }

/-- An action in which the body controls whether there is a target, too. -/
def routeAction : Action where
  type := "route"
  params := [bodyParam,
    { name := "settings", kind := .variant "body" [⟨"\x7b\"a\":null\x7d", [targetParam]⟩] }]

/-- The actions of a catalog with both. -/
def sendSection : Json :=
  let body : Json := .obj [("name", .str "body"), ("kind", .str "object")]
  let target : Json := .obj [("name", .str "target"), ("required", .bool true)]
  let settings : Json := .obj [("name", .str "settings"), ("controller", .str "body"),
    ("variants", .arr [
      .obj [("value", .str "\x7b\"a\":null\x7d"), ("params", .arr [target])]])]
  .arr [.obj [("type", .str "send"), ("params", .arr [body])],
    .obj [("type", .str "route"), ("params", .arr [body, settings])]]

/-- The action that sends a body is found by its type. -/
lemma action?_send :
    (Catalog.ofSections .null .null sendSection).action? (Text.trim "send") = some sendAction := rfl

/-- The action with a target is found by its type. -/
lemma action?_route :
    (Catalog.ofSections .null .null sendSection).action? (Text.trim "route") = some routeAction :=
  rfl

/-- The text of the body tells whether there is a target. -/
lemma active_routeAction {text : String} (h : m.textOf "body" = some text) :
    routeAction.active m =
      bodyParam :: if text = "\x7b\"a\":null\x7d" then [targetParam] else [] := by
  have htarget : Param.active m [targetParam] = [targetParam] := rfl
  simp only [Action.active, routeAction, Param.active_eq_flatMap, List.flatMap_cons,
    List.flatMap_nil]
  rw [Param.activeFor_of_isVariant rfl, Param.activeFor_of_controller? rfl, h]
  by_cases htext : text = "\x7b\"a\":null\x7d"
  · simp [Param.activeVariant?, ParamKind.variants, htext, htarget]
  · have hne : ¬"\x7b\"a\":null\x7d" = text := fun heq => htext heq.symm
    simp [Param.activeVariant?, ParamKind.variants, htext, hne]

/-- A body within a body, as text between a new line and a tab, is saved as the object is. -/
theorem storedForm?_and_toStored_typed_nested :
    let o : Json.Object := [("a", .obj [("b", .arr [.null, .str "\x7b"])])]
    let catalog := Catalog.ofSections .null .null sendSection
    let row : ActionRow := { id := "action-1", type := "send" }
    let held := row.withValue "body" (.object o)
    let typed := row.withValue "body" (.typed "\n" o "\t")
    Json.parse? (Json.obj o).compact = some (.obj o) ∧ o ≠ [] ∧
      (∀ q ∈ sendAction.active held.params, q.name = "body" → q = bodyParam) ∧
      ¬Param.Consults held.params sendAction.params "body" ∧
      bodyParam.storedForm? (some (.typed "\n" o "\t")) =
        bodyParam.storedForm? (some (.object o)) ∧
      typed.toStored catalog = held.toStored catalog := by
  intro o catalog row held typed
  have hread : Json.parse? (Json.obj o).compact = some (.obj o) := Json.parse?_of_value (by cbv) rfl
  have hne : o ≠ [] := List.cons_ne_nil _ _
  have honce : ∀ q ∈ sendAction.active held.params, q.name = "body" → q = bodyParam :=
    fun q hq _ => List.mem_singleton.1 hq
  have halone : ¬Param.Consults held.params sendAction.params "body" := by
    intro h
    obtain ⟨q, hq, hc⟩ := Param.exists_mem_declared_of_consults h
    obtain rfl : q = bodyParam := List.mem_singleton.1 hq
    exact absurd hc (by simp [bodyParam, ParamKind.controller?])
  have hspace : Text.isBlank "\n" = true ∧ Text.isBlank "\t" = true := by decide
  obtain ⟨hform, hrow⟩ := storedForm?_and_toStored_typed_iff (p := bodyParam) rfl hread
    hspace.1 hspace.2
  exact ⟨hread, hne, honce, halone, hform.2 hne,
    (hrow catalog row sendAction action?_send honce (.inr halone)).2 fun _ => .inl hne⟩

/-- The object without members is saved if it is typed as text, and not if it is held as an object.
An object that is typed with a space before it selects no target. -/
theorem storedForm?_and_toStored_typed_ne :
    let catalog := Catalog.ofSections .null .null sendSection
    let send : ActionRow := { id := "action-1", type := "send" }
    let route : ActionRow := { id := "action-1", type := "route" }
    let o : Json.Object := [("a", .null)]
    (Json.parse? (Json.obj []).compact = some (.obj []) ∧
      bodyParam.storedForm? (some (.typed "" [] "")) = some (.obj []) ∧
      bodyParam.storedForm? (some (.object [])) = none ∧
      ((send.withValue "body" (.typed "" [] "")).toStored catalog).params =
        [("body", .obj [])] ∧
      ((send.withValue "body" (.object [])).toStored catalog).params = []) ∧
    (Json.parse? (Json.obj o).compact = some (.obj o) ∧
      ((route.withValue "body" (.typed " " o "")).toStored catalog).params = [("body", .obj o)] ∧
      ((route.withValue "body" (.object o)).toStored catalog).params =
        [("body", .obj o), ("target", .str "")]) := by
  intro catalog send route o
  have hsend : catalog.action? (Text.trim send.type) = some sendAction := action?_send
  have hroute : catalog.action? (Text.trim route.type) = some routeAction := action?_route
  have hread : Json.parse? (Json.obj o).compact = some (.obj o) := Json.parse?_of_value (by cbv) rfl
  have hreadEmpty : Json.parse? (Json.obj []).compact = some (.obj []) :=
    Json.parse?_of_value (by cbv) rfl
  have hform : bodyParam.storedForm? (some (.typed " " o "")) = some (.obj o) :=
    Param.storedForm?_typed rfl hread (by decide) (by decide)
  have hformEmpty : bodyParam.storedForm? (some (.typed "" [] "")) = some (.obj []) :=
    Param.storedForm?_typed rfl hreadEmpty (by decide) (by decide)
  have htyped : (EditValue.typed " " o "").toText = " \x7b\"a\":null\x7d" := by decide
  have hheld : (EditValue.object o).toText = "\x7b\"a\":null\x7d" := by decide
  refine ⟨⟨hreadEmpty, hformEmpty, Param.storedForm?_object rfl, ?_, ?_⟩, hread, ?_, ?_⟩
  · rw [toStored_withValue hsend]
    exact storedKnown_insert_eq_singleton (p := bodyParam) rfl
      (Param.saved?_eq_some_iff.2 (.inl hformEmpty))
  · rw [toStored_withValue hsend]
    rfl
  · have hunselected : routeAction.active
        (OrderedMap.insert route.params "body" (.typed " " o "")) = [bodyParam] := by
      rw [active_routeAction (Params.textOf_insert _ _ _), htyped, if_neg (by decide)]
    rw [toStored_withValue hroute]
    exact storedKnown_insert_eq_singleton (p := bodyParam) hunselected
      (Param.saved?_eq_some_iff.2 (.inl hform))
  · rw [toStored_withValue hroute, storedKnown]
    rw [active_routeAction (Params.textOf_insert _ _ _), hheld, if_pos rfl]
    rfl

end ActionRow

end RuleEditor
