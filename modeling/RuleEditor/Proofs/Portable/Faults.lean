import RuleEditor.Proofs.OrderedMap
import RuleEditor.Proofs.Portable.Import

/-!
# What importing refuses

A document has requirements, which are gone through in a fixed order: that it is an object, that it
has conditions, the path and the operator of each of them, that it has actions, the type of each of
them. It is imported exactly if it meets all of them, and refused for the first one that it does not
meet. Members that are in none of these requirements, and the lenient readers of them, have no part
in this.

## Main definitions

* `Portable.HasText`, `Portable.HasItems` — what is required of members.
* `Portable.IsImportable` — the documents that meet all requirements.
* `Portable.FirstAmong` — the first item of a list that may be at fault, and its number.
* `Portable.FirstFault` — the first requirement that a document does not meet.

## Main results

* `Portable.importItems_eq_error_iff` — a list is refused for its first bad item.
* `Portable.importJson_accepts_and_refuses_iff` — what is imported, and why anything else is
  refused.
-/

set_option relaxedAutoImplicit false
set_option autoImplicit false

namespace RuleEditor.Portable

/-! ## Requirements -/

/-- A value is an object with a text under a name that is not blank. This is what a path, an
operator and a type have to be; that other members are texts is not required. -/
def HasText (v : Json) (name : String) : Prop :=
  ∃ s, v.member? name = some (.str s) ∧ Text.isBlank s = false

/-- A value is an object with a list under a name that is not empty. -/
def HasItems (v : Json) (name : String) : Prop :=
  ∃ items, v.member? name = some (.arr items) ∧ items ≠ []

/-- A value is an object with a list under a name that is not empty and has good items only. -/
def HasGoodItems (good : Json → Prop) (v : Json) (name : String) : Prop :=
  ∃ items, v.member? name = some (.arr items) ∧ items ≠ [] ∧ ∀ item ∈ items, good item

/-- What a condition needs: a path and an operator. -/
def IsCondition (v : Json) : Prop := HasText v "path" ∧ HasText v "operator"

/-- What an action needs: a type. -/
def IsAction (v : Json) : Prop := HasText v "type"

/-- A document that meets all requirements. It is stated without the importer: by membership in
lists and not by a walk through them. -/
structure IsImportable (v : Json) : Prop where
  /-- It is an object. -/
  object : v.isObj = true
  /-- It has conditions, each with a path and an operator. -/
  conditions : HasGoodItems IsCondition v "conditions"
  /-- It has actions, each with a type. -/
  actions : HasGoodItems IsAction v "actions"

/-- The list under a name has an item with a number, counted from one, and all items before it are
good. Nothing is said of the items behind it, which may be at fault as well. -/
def FirstAmong (good : Json → Prop) (v : Json) (name : String) (number : Nat) (item : Json) :
    Prop :=
  ∃ before after, v.member? name = some (.arr (before ++ item :: after)) ∧
    (∀ other ∈ before, good other) ∧ number = before.length + 1

/-- The first requirement that a document does not meet, as the reason why it is refused. Each
constructor asks that all requirements before its own are met; `noConditions` leaves open whether
the member is missing, no list or empty. -/
inductive FirstFault (v : Json) : ImportError → Prop where
  /-- It is no object. -/
  | notAnObject (h : v.isObj = false) : FirstFault v .notAnObject
  /-- It is an object without conditions. -/
  | noConditions (hobject : v.isObj = true) (h : ¬HasItems v "conditions") :
      FirstFault v .noConditions
  /-- A condition behind good ones has no path. -/
  | conditionMissingPath {number : Nat} {item : Json}
      (hfirst : FirstAmong IsCondition v "conditions" number item) (h : ¬HasText item "path") :
      FirstFault v (.conditionMissingPath number)
  /-- A condition behind good ones has a path but no operator. -/
  | conditionMissingOperator {number : Nat} {item : Json}
      (hfirst : FirstAmong IsCondition v "conditions" number item) (hpath : HasText item "path")
      (h : ¬HasText item "operator") : FirstFault v (.conditionMissingOperator number)
  /-- All conditions are good, and there are no actions. -/
  | noActions (hconditions : HasGoodItems IsCondition v "conditions")
      (h : ¬HasItems v "actions") : FirstFault v .noActions
  /-- All conditions are good, and an action behind good ones has no type. -/
  | actionMissingType {number : Nat} {item : Json}
      (hconditions : HasGoodItems IsCondition v "conditions")
      (hfirst : FirstAmong IsAction v "actions" number item) (h : ¬HasText item "type") :
      FirstFault v (.actionMissingType number)

/-- Whether there is a requirement on the member of a name. -/
def isRequired (name : String) : Bool := name = "conditions" || name = "actions"

/-- A document without the members on which there is no requirement. It is refused for the same
reason as the document, if at all. -/
def requiredMembers : Json → Json
  | .obj o => .obj (o.filter fun member => isRequired member.1)
  | v => v

/-! ## Members -/

/-- Only objects have members. -/
lemma exists_eq_obj_of_member? {v member : Json} {name : String}
    (h : v.member? name = some member) : ∃ o, v = .obj o := by
  cases v with
  | obj o => exact ⟨o, rfl⟩
  | _ => exact absurd h (by simp [Json.member?, Json.obj?])

/-- Only objects have texts under names. -/
lemma HasText.exists_eq_obj {v : Json} {name : String} (h : HasText v name) :
    ∃ o, v = .obj o := by
  obtain ⟨s, hmember, -⟩ := h
  exact exists_eq_obj_of_member? hmember

/-- The reader of texts finds one exactly if the object has one. -/
lemma hasText_obj_iff {o : Json.Object} {name : String} :
    HasText (.obj o) name ↔ ∃ s, nonBlankMember? o name = some s := by
  have hmember : (Json.obj o).member? name = OrderedMap.get? o name := rfl
  simp only [HasText, hmember, nonBlankMember?, Option.filter_eq_some_iff, Option.bind_eq_some_iff]
  constructor
  · rintro ⟨s, hs, hblank⟩
    exact ⟨s, ⟨.str s, hs, rfl⟩, by simpa using hblank⟩
  · rintro ⟨s, ⟨v, hv, hstr⟩, hblank⟩
    cases v with
    | str t =>
      obtain rfl : t = s := Option.some.inj hstr
      exact ⟨t, hv, by simpa using hblank⟩
    | _ => exact absurd hstr (by simp [Json.str?])

/-- Where an object has no text under a name, the readers of items stop; so they do for a value that
is no object. -/
lemma bind_nonBlankMember?_eq_none {v : Json} {name : String} (h : ¬HasText v name) :
    (v.obj?.bind fun o => (nonBlankMember? o name).map (o, ·)) = none := by
  cases v with
  | obj o =>
    have hnone : nonBlankMember? o name = none := by
      by_contra hsome
      exact h (hasText_obj_iff.2 (Option.ne_none_iff_exists'.1 hsome))
    simp [Json.obj?, hnone]
  | _ => rfl

/-! ## Items -/

/-- A condition is imported exactly if it has a path and an operator. -/
lemma exists_importCondition_eq_ok_iff (index : Nat) (v : Json) :
    (∃ c, importCondition index v = .ok c) ↔ IsCondition v := by
  simp only [importCondition_eq_ok_iff]
  constructor
  · rintro ⟨c, o, rfl, hpath, hop, -⟩
    exact ⟨hasText_obj_iff.2 ⟨_, hpath⟩, hasText_obj_iff.2 ⟨_, hop⟩⟩
  · rintro ⟨hpath, hop⟩
    obtain ⟨o, rfl⟩ := hpath.exists_eq_obj
    obtain ⟨path, hpath⟩ := hasText_obj_iff.1 hpath
    obtain ⟨op, hop⟩ := hasText_obj_iff.1 hop
    exact ⟨⟨op, path, rightSide? o⟩, o, rfl, hpath, hop, rfl⟩

/-- An action is imported exactly if it has a type. -/
lemma exists_importAction_eq_ok_iff (index : Nat) (v : Json) :
    (∃ a, importAction index v = .ok a) ↔ IsAction v := by
  simp only [importAction_eq_ok_iff]
  constructor
  · rintro ⟨a, o, rfl, htype, -⟩
    exact hasText_obj_iff.2 ⟨_, htype⟩
  · intro htype
    obtain ⟨o, rfl⟩ := HasText.exists_eq_obj htype
    obtain ⟨type, htype⟩ := hasText_obj_iff.1 htype
    exact ⟨⟨type, _⟩, o, rfl, htype, rfl⟩

/-- Why a condition is refused: for its path, or else for its operator. -/
lemma importCondition_eq_error_iff (index : Nat) (v : Json) (e : ImportError) :
    importCondition index v = .error e ↔
      ¬HasText v "path" ∧ e = .conditionMissingPath index ∨
        HasText v "path" ∧ ¬HasText v "operator" ∧ e = .conditionMissingOperator index := by
  by_cases hpath : HasText v "path"
  · by_cases hop : HasText v "operator"
    · obtain ⟨c, hc⟩ := (exists_importCondition_eq_ok_iff index v).2 ⟨hpath, hop⟩
      simp [hc, hpath, hop]
    · have herror : importCondition index v = .error (.conditionMissingOperator index) := by
        obtain ⟨o, rfl⟩ := hpath.exists_eq_obj
        obtain ⟨path, hsome⟩ := hasText_obj_iff.1 hpath
        have hnone : nonBlankMember? o "operator" = none := by
          simpa [Json.obj?] using bind_nonBlankMember?_eq_none hop
        simp only [importCondition, Json.obj?, Option.bind_some, hsome, Option.map_some, hnone]
      simp [herror, hpath, hop, eq_comm]
  · have herror : importCondition index v = .error (.conditionMissingPath index) := by
      simp only [importCondition, bind_nonBlankMember?_eq_none hpath]
    simp [herror, hpath, eq_comm]

/-- Why an action is refused. -/
lemma importAction_eq_error_iff (index : Nat) (v : Json) (e : ImportError) :
    importAction index v = .error e ↔ ¬HasText v "type" ∧ e = .actionMissingType index := by
  by_cases htype : HasText v "type"
  · obtain ⟨a, ha⟩ := (exists_importAction_eq_ok_iff index v).2 htype
    simp [ha, htype]
  · have herror : importAction index v = .error (.actionMissingType index) := by
      simp only [importAction, bind_nonBlankMember?_eq_none htype]
    simp [herror, htype, eq_comm]

/-! ## Lists -/

/-- A list is refused for its first item, or for the rest if that item is imported. The rest is
counted on from the next number. -/
lemma importItems_cons_eq_error_iff {α : Type} {importItem : Nat → Json → Except ImportError α}
    (v : Json) (rest : List Json) (index : Nat) (e : ImportError) :
    importItems importItem (v :: rest) index = .error e ↔
      importItem index v = .error e ∨
        (∃ a, importItem index v = .ok a) ∧
          importItems importItem rest (index + 1) = .error e := by
  rw [importItems]
  cases importItem index v with
  | error e' => simp
  | ok a => cases importItems importItem rest (index + 1) <;> simp

section Lists

variable {α : Type} {importItem : Nat → Json → Except ImportError α} {good : Json → Prop}
  (hgood : ∀ index v, (∃ a, importItem index v = .ok a) ↔ good v)

include hgood

/-- A list is imported exactly if its items are good, from whatever number they are counted. -/
lemma exists_importItems_eq_ok_iff (items : List Json) (index : Nat) :
    (∃ as, importItems importItem items index = .ok as) ↔ ∀ item ∈ items, good item := by
  induction items generalizing index with
  | nil => simp [importItems]
  | cons v rest ih =>
    rw [List.forall_mem_cons, ← hgood index v, ← ih (index + 1), importItems]
    cases importItem index v with
    | error e => simp
    | ok a => cases importItems importItem rest (index + 1) <;> simp

/-- **A list is refused for its first bad item.** The items before it are good, and it is counted
from the number of the first item.

**Proof sketch.** Induction on the list. An item that is refused at the head has no items before it;
behind a head that is imported, the first bad item of the rest is that of the list. -/
theorem importItems_eq_error_iff (items : List Json) (index : Nat) (e : ImportError) :
    importItems importItem items index = .error e ↔
      ∃ before item after, items = before ++ item :: after ∧ (∀ other ∈ before, good other) ∧
        importItem (index + before.length) item = .error e := by
  induction items generalizing index with
  | nil => simp [importItems]
  | cons v rest ih =>
    have hnumber : ∀ before : List Json,
        index + 1 + before.length = index + (v :: before).length := by
      intro before
      rw [List.length_cons]
      omega
    rw [importItems_cons_eq_error_iff, hgood, ih]
    constructor
    · rintro (hitem | ⟨hv, before, item, after, rfl, hbefore, hitem⟩)
      · exact ⟨[], v, rest, rfl, by simp, hitem⟩
      · exact ⟨v :: before, item, after, rfl, List.forall_mem_cons.2 ⟨hv, hbefore⟩,
          hnumber before ▸ hitem⟩
    · rintro ⟨before, item, after, hsplit, hbefore, hitem⟩
      cases before with
      | nil =>
        obtain ⟨rfl, rfl⟩ := List.cons.inj hsplit
        exact .inl hitem
      | cons first before =>
        obtain ⟨rfl, rfl⟩ := List.cons.inj hsplit
        obtain ⟨hv, hbefore⟩ := List.forall_mem_cons.1 hbefore
        exact .inr ⟨hv, before, item, after, rfl, hbefore, (hnumber before).symm ▸ hitem⟩

/-- A member is imported as a list exactly if it is one that has items, all of them good. -/
lemma exists_importList_eq_ok_iff (missing : ImportError) (o : Json.Object) (name : String) :
    (∃ as, importList importItem missing o name = .ok as) ↔ HasGoodItems good (.obj o) name := by
  have hmember : (Json.obj o).member? name = OrderedMap.get? o name := rfl
  simp only [HasGoodItems, hmember, importList]
  cases OrderedMap.get? o name with
  | none => simp
  | some w =>
    cases w with
    | arr items =>
      cases items with
      | nil => simp [Json.arr?]
      | cons v rest =>
        simp only [Option.bind_some, Json.arr?, exists_importItems_eq_ok_iff hgood]
        simp
    | _ => simp [Json.arr?]

/-- Why a member is refused as a list: it is none that has items, or for its first bad item, with
the number of that item. -/
lemma importList_eq_error_iff (missing : ImportError) (o : Json.Object) (name : String)
    (e : ImportError) :
    importList importItem missing o name = .error e ↔
      ¬HasItems (.obj o) name ∧ e = missing ∨
        ∃ number item, FirstAmong good (.obj o) name number item ∧
          importItem number item = .error e := by
  have hmember : (Json.obj o).member? name = OrderedMap.get? o name := rfl
  simp only [HasItems, FirstAmong, hmember, importList]
  cases OrderedMap.get? o name with
  | none => simp [eq_comm]
  | some w =>
    cases w with
    | arr items =>
      cases items with
      | nil => simp [Json.arr?, eq_comm]
      | cons v rest =>
        simp only [Option.bind_some, Json.arr?, importItems_eq_error_iff hgood, Option.some.injEq,
          Json.arr.injEq]
        constructor
        · rintro ⟨before, item, after, hsplit, hbefore, hitem⟩
          exact .inr ⟨_, item, ⟨before, after, hsplit, hbefore, Nat.add_comm _ _⟩, hitem⟩
        · rintro (⟨hnone, -⟩ | ⟨_, item, ⟨before, after, hsplit, hbefore, rfl⟩, hitem⟩)
          · exact absurd ⟨v :: rest, rfl, List.cons_ne_nil v rest⟩ hnone
          · exact ⟨before, item, after, hsplit, hbefore, by rwa [Nat.add_comm]⟩
    | _ => simp [Json.arr?, eq_comm]

end Lists

/-! ## Documents -/

/-- An object is refused for its conditions, or for its actions if the conditions are imported. -/
lemma importJson_obj_eq_error_iff (o : Json.Object) (e : ImportError) :
    importJson (.obj o) = .error e ↔
      importList importCondition .noConditions o "conditions" = .error e ∨
        (∃ cs, importList importCondition .noConditions o "conditions" = .ok cs) ∧
          importList importAction .noActions o "actions" = .error e := by
  rw [importJson]
  cases importList importCondition .noConditions o "conditions" with
  | error e' => simp
  | ok cs => cases importList importAction .noActions o "actions" <;> simp

/-- A document is imported exactly if it meets all requirements, so that no other member can stand
in the way. -/
lemma exists_importJson_eq_ok_iff (v : Json) :
    (∃ r, importJson v = .ok r) ↔ IsImportable v := by
  simp only [importJson_eq_ok_iff]
  constructor
  · rintro ⟨r, o, conditions, actions, rfl, hconditions, hactions, -⟩
    exact ⟨rfl,
      (exists_importList_eq_ok_iff exists_importCondition_eq_ok_iff _ o _).1 ⟨_, hconditions⟩,
      (exists_importList_eq_ok_iff exists_importAction_eq_ok_iff _ o _).1 ⟨_, hactions⟩⟩
  · rintro ⟨-, hconditions, hactions⟩
    obtain ⟨items, hmember, -⟩ := id hconditions
    obtain ⟨o, rfl⟩ := exists_eq_obj_of_member? hmember
    obtain ⟨conditions, hconditions⟩ :=
      (exists_importList_eq_ok_iff exists_importCondition_eq_ok_iff .noConditions o _).2 hconditions
    obtain ⟨actions, hactions⟩ :=
      (exists_importList_eq_ok_iff exists_importAction_eq_ok_iff .noActions o _).2 hactions
    exact ⟨_, o, conditions, actions, rfl, hconditions, hactions, rfl⟩

/-- The only fault of a value that is no object is that it is none. -/
lemma FirstFault.eq_notAnObject {v : Json} {e : ImportError} (h : FirstFault v e)
    (hv : v.isObj = false) : e = .notAnObject := by
  have hmember : ∀ name, v.member? name = none := by
    intro name
    rw [Json.member?, Option.not_isSome_iff_eq_none.1 (Bool.eq_false_iff.1 hv), Option.bind_none]
  cases h with
  | notAnObject _ => rfl
  | noConditions hobject _ => exact absurd (hobject.symm.trans hv) (by decide)
  | conditionMissingPath hfirst _ | conditionMissingOperator hfirst _ _
  | actionMissingType _ hfirst _ =>
    obtain ⟨_, _, hitems, _⟩ := hfirst
    exact absurd ((hmember _).symm.trans hitems) (by simp)
  | noActions hconditions _ =>
    obtain ⟨_, hitems, _⟩ := hconditions
    exact absurd ((hmember _).symm.trans hitems) (by simp)

/-- A document is refused for the first requirement that it does not meet. Both directions matter: a
refusal names a fault, and a document with that first fault is refused for it. -/
lemma importJson_eq_error_iff (v : Json) (e : ImportError) :
    importJson v = .error e ↔ FirstFault v e := by
  cases v with
  | obj o =>
    rw [importJson_obj_eq_error_iff,
      importList_eq_error_iff exists_importCondition_eq_ok_iff,
      exists_importList_eq_ok_iff exists_importCondition_eq_ok_iff,
      importList_eq_error_iff exists_importAction_eq_ok_iff]
    simp only [importCondition_eq_error_iff, importAction_eq_error_iff]
    constructor
    · rintro ((⟨hnone, rfl⟩ | ⟨number, item, hfirst, hfault⟩) | ⟨hconditions, hactions⟩)
      · exact .noConditions rfl hnone
      · rcases hfault with ⟨hpath, rfl⟩ | ⟨hpath, hop, rfl⟩
        · exact .conditionMissingPath hfirst hpath
        · exact .conditionMissingOperator hfirst hpath hop
      · rcases hactions with ⟨hnone, rfl⟩ | ⟨number, item, hfirst, htype, rfl⟩
        · exact .noActions hconditions hnone
        · exact .actionMissingType hconditions hfirst htype
    · intro h
      cases h with
      | notAnObject h => exact absurd h (by simp [Json.isObj, Json.obj?])
      | noConditions _ h => exact .inl (.inl ⟨h, rfl⟩)
      | conditionMissingPath hfirst h => exact .inl (.inr ⟨_, _, hfirst, .inl ⟨h, rfl⟩⟩)
      | conditionMissingOperator hfirst hpath h =>
        exact .inl (.inr ⟨_, _, hfirst, .inr ⟨hpath, h, rfl⟩⟩)
      | noActions hconditions h => exact .inr ⟨hconditions, .inl ⟨h, rfl⟩⟩
      | actionMissingType hconditions hfirst h =>
        exact .inr ⟨hconditions, .inr ⟨_, _, hfirst, h, rfl⟩⟩
  | _ =>
    constructor
    · intro h
      rw [← Except.error.inj h]
      exact .notAnObject rfl
    · intro h
      rw [h.eq_notAnObject rfl]
      rfl

/-- Members on which there is no requirement have no part in why a document is refused. -/
lemma importJson_requiredMembers_eq_error_iff (v : Json) (e : ImportError) :
    importJson (requiredMembers v) = .error e ↔ importJson v = .error e := by
  cases v with
  | obj o =>
    have hmember : ∀ name, isRequired name = true →
        OrderedMap.get? (o.filter fun member => isRequired member.1) name =
          OrderedMap.get? o name :=
      fun name hname => OrderedMap.get?_filter hname o
    rw [requiredMembers, importJson_obj_eq_error_iff, importJson_obj_eq_error_iff]
    simp only [importList, hmember "conditions" rfl, hmember "actions" rfl]
  | _ => rfl

/-- **What is imported, and why anything else is refused.** A document is imported exactly if it
meets all requirements; if not, it is refused for the first one in order that it does not meet, with
the number of the first bad condition or action. No other member has a part in this.

**Proof sketch.** Each list is refused for its first bad item (`importItems_eq_error_iff`), whose
own requirements are gone through in order, and the actions are not looked at before the conditions
are imported. -/
theorem importJson_accepts_and_refuses_iff (v : Json) :
    ((∃ r, importJson v = .ok r) ↔ IsImportable v) ∧
      (∀ e, importJson v = .error e ↔ FirstFault v e) ∧
      ∀ e, importJson (requiredMembers v) = .error e ↔ importJson v = .error e :=
  ⟨exists_importJson_eq_ok_iff v, importJson_eq_error_iff v,
    importJson_requiredMembers_eq_error_iff v⟩

end RuleEditor.Portable
